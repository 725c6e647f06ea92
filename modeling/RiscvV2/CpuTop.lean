import RiscvV2.Sequences
import RiscvV2.Sequential

/-!
# The verification top (`cpu_top.sv`)

`cpu_top` runs the core with memories that never wait and keeps a shadow pipeline beside it:
the instruction words from EX on, and a valid bit of its own for MEM and WB. The shadow valid
bit follows `id_ex_valid`, so that instructions which trap are reported as well; it does not
look at `m_stall`. Every cycle in which a multicycle unit holds EX is therefore reported as a
retirement, and without such a cycle the reports are exactly the instructions that leave EX.

`reports_once_iff` gives the exact condition: every instruction that leaves EX is reported once
and in order if and only if no multicycle operation ever holds EX. One direction is the delay of
two cycles from EX to the report. For the other a stall would give the report of one instruction
twice, more reports than an assignment of one report to each instruction has room for.
-/

namespace RiscvV2

/-! ## The module -/

/-- The parameters of `core_inst`. -/
def cpuTopConfig : Config where
  resetPc := 0x80000000#32
  trapAccessFaults := true
  dmemBase := 0x80000000#32
  dmemLimit := 0x80020000#32

/-- The registers of `cpu_top`: the core and the shadow pipeline. -/
structure CpuTop where
  core : Core
  idExInstr : Word := 0
  exMemInstr : Word := 0
  memWbInstr : Word := 0
  exMemV : Bool := false
  memWbV : Bool := false

/-- The inputs of `cpu_top`. -/
structure CpuTopIn where
  rst : Bool := false
  instruction : Word := 0
  externalIrq : Bool := false
  memReadData : Word := 0

/-- The port connections of `core_inst`. -/
def cpuTopCoreIn (s : CpuTop) (i : CpuTopIn) : CoreIn cpuTopConfig.numExtInterrupts where
  reset := i.rst
  globalInterrupts := (0#31 ++ BitVec.ofBool i.externalIrq : BitVec 32)
  imemReady := true
  imemInstr := i.instruction
  imemRespPc := imemAddr s.core.fetch
  dmemReady := true
  dmemReadData := i.memReadData

/-- The module out of reset. -/
def cpuTopReset : CpuTop := { core := coreReset cpuTopConfig }

/-- The module after a clock edge. -/
def cpuTopNext (s : CpuTop) (i : CpuTopIn) : CpuTop :=
  let p := s.core.pipe
  let core := coreNext cpuTopConfig s.core (cpuTopCoreIn s i)
  if i.rst then { core := core }
  else if memStall p true then { s with core := core, memWbV := false }
  else
    { core := core
      idExInstr :=
        if (exRedirect cpuTopConfig p true).isSome || bubbleEx p then 0x00000013#32
        else if !stallIf p then p.ifId.instr
        else s.idExInstr
      exMemInstr := s.idExInstr
      exMemV := p.idEx.valid
      memWbInstr := s.exMemInstr
      memWbV := s.exMemV }

/-- `cpu_top` under arbitrary instruction words, loads, interrupts and resets. -/
def cpuTopSystem : Clocked CpuTop CpuTopIn where
  init s := s = cpuTopReset
  allowed _ _ := True
  next := cpuTopNext

/-- A retirement as the verification environment sees it. -/
structure Retirement where
  pc : Word
  instr : Word
  /-- register and value written, if `reg_write_o` is set -/
  write : Option RegWrite
  deriving DecidableEq

/-- The outputs `retired_*`, `reg_write_o`, `rd_o` and `rf_rd_value_o`; `none` without
`retired_valid`. -/
def retired (s : CpuTop) : Option Retirement :=
  let p := s.core.pipe
  if s.memWbV then
    some
      { pc := p.memWb.pc4 - 4#32
        instr := s.memWbInstr
        write := if p.memWb.valid && p.memWb.regWrite then some ⟨p.memWb.rd, wbData p⟩ else none }
  else none

/-! ## What should be reported

Said by the cycles in which instructions leave EX, without looking at the shadow registers. A
reset may still catch an instruction in EX or in MEM. -/

/-- The module `t` cycles after reset. -/
def cpuTopAt (x : ℕ → CpuTopIn) (t : ℕ) : CpuTop := cpuTopSystem.stateAt cpuTopReset x t

/-- The back end in cycle `t`. -/
def pipeAt (x : ℕ → CpuTopIn) (t : ℕ) : Pipe := (cpuTopAt x t).core.pipe

/-- The instruction word of the instruction in EX: the word last taken over from IF/ID. -/
def exInstr (x : ℕ → CpuTopIn) : ℕ → Word
  | 0 => 0
  | t + 1 =>
    let p := pipeAt x t
    if memStall p true || idExFlushCtrl cpuTopConfig p true || stallIf p then exInstr x t
    else p.ifId.instr

/-- The value the instruction in EX writes back; `readData` is what memory returns for a load. -/
def exValue (p : Pipe) (readData : Word) : Word :=
  match p.idEx.ctrl.wbSel with
  | .alu => exAluResult p
  | .load => lsuLoadData p.idEx.ctrl.memSize p.idEx.ctrl.memUnsigned
      ((exAluResult p).extractLsb' 0 2) readData
  | .pc4 => p.idEx.pc + 4#32
  | .csr => p.idEx.csrOld

/-- The register write of the instruction in EX. One that traps writes nothing. -/
def exWrite (p : Pipe) (readData : Word) : Option RegWrite :=
  if (exTrap cpuTopConfig p true).isNone && p.idEx.ctrl.regWrite then
    some ⟨p.idEx.ctrl.rd, exValue p readData⟩
  else none

/-- The instruction that leaves EX in cycle `t`, moving on or trapping, unless a reset catches
it there or in MEM. -/
def leaving (x : ℕ → CpuTopIn) (t : ℕ) : Option Retirement :=
  if !(x t).rst && !(x (t + 1)).rst && exFires (pipeAt x t) true then
    some
      { pc := (pipeAt x t).idEx.pc
        instr := exInstr x t
        write := exWrite (pipeAt x t) (x (t + 1)).memReadData }
  else none

/-- **Every instruction is reported exactly once, in program order**: `f` assigns to the cycle
in which an instruction leaves EX the later cycle of its report, and there are no others. -/
def ReportsOnce (x : ℕ → CpuTopIn) : Prop :=
  ∃ f : ℕ → ℕ,
    (∀ t r, leaving x t = some r → t < f t ∧ retired (cpuTopAt x (f t)) = some r) ∧
    (∀ t t', (leaving x t).isSome = true → (leaving x t').isSome = true → t < t' → f t < f t') ∧
    ∀ u, (retired (cpuTopAt x u)).isSome = true → ∃ t, (leaving x t).isSome = true ∧ f t = u

/-! ## The core inside -/

section run

variable {x : ℕ → CpuTopIn} {t : ℕ}

@[simp] theorem memStall_ready (p : Pipe) : memStall p true = false := by
  simp [memStall]

@[simp] theorem cpuTopCoreIn_dmemReady (s : CpuTop) (i : CpuTopIn) :
    (cpuTopCoreIn s i).dmemReady = true := rfl

theorem cpuTopNext_core (s : CpuTop) (i : CpuTopIn) :
    (cpuTopNext s i).core = coreNext cpuTopConfig s.core (cpuTopCoreIn s i) := by
  simp only [cpuTopNext]
  split_ifs <;> rfl

/-- The core inside `cpu_top` runs as `riscv_core` does. -/
theorem core_reachable (x : ℕ → CpuTopIn) (t : ℕ) :
    (coreSystem cpuTopConfig).Reachable (cpuTopAt x t).core := by
  induction t with
  | zero => exact .init rfl
  | succ t ih =>
    have hnext : (cpuTopAt x (t + 1)).core = _ := cpuTopNext_core (cpuTopAt x t) (x t)
    rw [hnext]
    exact ih.tick trivial

theorem pipeAt_staged (x : ℕ → CpuTopIn) (t : ℕ) : Staged (pipeAt x t) :=
  (coreStaged_of_reachable (core_reachable x t)).pipe

theorem pipeAt_reset (h : (x t).rst = true) : (pipeAt x (t + 1)).idEx.valid = false := by
  have hnext : (cpuTopAt x (t + 1)).core = _ := cpuTopNext_core (cpuTopAt x t) (x t)
  rw [pipeAt, hnext, coreNext_of_reset h]
  rfl

theorem pipeAt_succ (h : (x t).rst = false) :
    pipeAt x (t + 1) = pipeNext cpuTopConfig (pipeAt x t)
      (pipeIn cpuTopConfig (cpuTopAt x t).core (cpuTopCoreIn (cpuTopAt x t) (x t))) := by
  have hnext : (cpuTopAt x (t + 1)).core = _ := cpuTopNext_core (cpuTopAt x t) (x t)
  rw [pipeAt, hnext, coreNext_pipe h]
  rfl

/-! ## The shadow registers

The shadow of the instruction word follows the stalls of the core and stays with its
instruction. The shadow valid bit does not. -/

theorem cpuTopAt_reset (h : (x t).rst = true) : (cpuTopAt x (t + 1)).exMemV = false ∧
    (cpuTopAt x (t + 1)).memWbV = false := by
  have hnext : cpuTopAt x (t + 1) = cpuTopNext (cpuTopAt x t) (x t) := rfl
  rw [hnext, cpuTopNext, if_pos h]
  exact ⟨rfl, rfl⟩

/-- Outside of reset the shadow pipeline moves in every cycle. -/
theorem cpuTopAt_succ (h : (x t).rst = false) :
    (cpuTopAt x (t + 1)).idExInstr =
      (if (exRedirect cpuTopConfig (pipeAt x t) true).isSome || bubbleEx (pipeAt x t) then
        0x00000013#32
      else if !stallIf (pipeAt x t) then (pipeAt x t).ifId.instr
      else (cpuTopAt x t).idExInstr) ∧
    (cpuTopAt x (t + 1)).exMemInstr = (cpuTopAt x t).idExInstr ∧
    (cpuTopAt x (t + 1)).exMemV = (pipeAt x t).idEx.valid ∧
    (cpuTopAt x (t + 1)).memWbInstr = (cpuTopAt x t).exMemInstr ∧
    (cpuTopAt x (t + 1)).memWbV = (cpuTopAt x t).exMemV := by
  have hnext : cpuTopAt x (t + 1) = cpuTopNext (cpuTopAt x t) (x t) := rfl
  rw [hnext, cpuTopNext, if_neg (by simp [h]), if_neg (by simp)]
  exact ⟨rfl, rfl, rfl, rfl, rfl⟩

/-- ID/EX and its shadow belong to the same instruction. -/
structure ShadowMatches (x : ℕ → CpuTopIn) (t : ℕ) : Prop where
  pc4 : (pipeAt x t).idEx.pc4 = (pipeAt x t).idEx.pc + 4#32
  instr : (cpuTopAt x t).idExInstr = exInstr x t

theorem exInstr_held (h : stallIf (pipeAt x t) = true) : exInstr x (t + 1) = exInstr x t := by
  rw [exInstr, if_pos (by simp [h])]

/-- What is in EX after an edge has come from ID with the word in IF/ID, or is held there by a
multicycle unit; the shadow register takes the same way. -/
theorem idEx_succ (hEx : (pipeAt x (t + 1)).idEx.valid = true) :
    ((pipeAt x (t + 1)).idEx = idExIssue (pipeAt x t) ∧
      exInstr x (t + 1) = (pipeAt x t).ifId.instr ∧
      (cpuTopAt x (t + 1)).idExInstr = (pipeAt x t).ifId.instr) ∨
    ((pipeAt x t).idEx.valid = true ∧ (pipeAt x (t + 1)).idEx = (pipeAt x t).idEx ∧
      exInstr x (t + 1) = exInstr x t ∧
      (cpuTopAt x (t + 1)).idExInstr = (cpuTopAt x t).idExInstr) := by
  cases hrst : (x t).rst with
  | true =>
    rw [pipeAt_reset hrst] at hEx
    cases hEx
  | false =>
    have hst := pipeAt_staged x t
    obtain ⟨hinstr, -⟩ := cpuTopAt_succ hrst
    have hbubble : bubbleEx (pipeAt x t) = false := by rw [bubbleEx, hst.loadHazardEx_eq]
    have hpipe := pipeAt_succ hrst
    cases hst.phase true with
    | wait _ _ hs =>
      rw [memStall_ready] at hs
      cases hs
    | flow hv hs =>
      have hr : exRedirect cpuTopConfig (pipeAt x t) true = none :=
        exRedirect_of_not_fires (by simp [exFires, hv])
      have hstall : stallIf (pipeAt x t) = false := by
        rw [hst.stallIf_eq, mStall_of_idEx_invalid hv]
      rw [pipeNext_flow hst hv hs] at hpipe
      refine .inl ⟨by rw [hpipe], ?_, ?_⟩
      · rw [exInstr, idExFlushCtrl, hr, hbubble, hstall, hs]
        rfl
      · rw [hinstr, hr, hbubble, hstall]
        rfl
    | busy hv hId hMem hs hm =>
      have hr : exRedirect cpuTopConfig (pipeAt x t) true = none :=
        exRedirect_of_not_fires (by simp [exFires, hm])
      have hstall : stallIf (pipeAt x t) = true := by rw [hst.stallIf_eq, hm]
      rw [pipeNext_busy hst hv hm] at hpipe
      refine .inr ⟨hv, by rw [hpipe], exInstr_held hstall, ?_⟩
      rw [hinstr, hr, hbubble, hstall]
      rfl
    | leave hv hId hMem hs hm =>
      -- nothing is behind an instruction that leaves EX
      rw [hpipe, pipeNext_leave hst hv hm] at hEx
      dsimp only at hEx
      split_ifs at hEx

/-- **The shadow of ID/EX keeps step with the core**, also while a multicycle unit holds EX. -/
theorem shadow_matches (x : ℕ → CpuTopIn) (t : ℕ) (hEx : (pipeAt x t).idEx.valid = true) :
    ShadowMatches x t := by
  induction t with
  | zero => cases hEx
  | succ t ih =>
    obtain ⟨hidEx, hword, hshadow⟩ | ⟨hv, hidEx, hword, hshadow⟩ := idEx_succ hEx
    · constructor
      case pc4 =>
        rw [hidEx]
        rfl
      case instr => rw [hshadow, hword]
    · obtain ⟨hpc4, hinstr⟩ := ih hv
      constructor
      case pc4 =>
        rw [hidEx]
        exact hpc4
      case instr => rw [hshadow, hword, hinstr]

/-- The instruction in EX is the decoded `exInstr`. -/
theorem idEx_decoded (x : ℕ → CpuTopIn) (t : ℕ) (hEx : (pipeAt x t).idEx.valid = true) :
    (pipeAt x t).idEx.ctrl = (riscvDecode (exInstr x t)).ctrl ∧
    (pipeAt x t).idEx.imm = (riscvDecode (exInstr x t)).imm := by
  induction t with
  | zero => cases hEx
  | succ t ih =>
    obtain ⟨hidEx, hword, -⟩ | ⟨hv, hidEx, hword, -⟩ := idEx_succ hEx
    · rw [hidEx, hword]
      exact ⟨rfl, rfl⟩
    · rw [hidEx, hword]
      exact ih hv

/-! ## Reports two cycles later

A cycle with EX occupied is reported two cycles later, with no other condition than that no
reset comes in between. -/

/-- What `cpu_top` reports two cycles after cycle `t`, unless a reset intervenes. -/
def reportOf (x : ℕ → CpuTopIn) (t : ℕ) : Retirement where
  pc := (pipeAt x t).idEx.pc4 - 4#32
  instr := (cpuTopAt x t).idExInstr
  write :=
    if (exMemNext cpuTopConfig (pipeAt x t) true).valid && (pipeAt x t).idEx.ctrl.regWrite then
      some ⟨(pipeAt x t).idEx.ctrl.rd,
        match (pipeAt x t).idEx.ctrl.wbSel with
        | .pc4 => (pipeAt x t).idEx.pc4
        | .load => lsuLoadData (pipeAt x t).idEx.ctrl.memSize (pipeAt x t).idEx.ctrl.memUnsigned
          ((exAluResult (pipeAt x t)).extractLsb' 0 2) (x (t + 1)).memReadData
        | .csr => (pipeAt x t).idEx.csrOld
        | .alu => exAluResult (pipeAt x t)⟩
    else none

theorem retired_of_reset (h : (x t).rst = true ∨ (x (t + 1)).rst = true) :
    retired (cpuTopAt x (t + 2)) = none := by
  have hv : (cpuTopAt x (t + 2)).memWbV = false := by
    cases h1 : (x (t + 1)).rst with
    | true => exact (cpuTopAt_reset h1).2
    | false =>
      obtain ⟨-, -, -, -, hwb⟩ := cpuTopAt_succ h1
      obtain h | h := h
      · rw [hwb]
        exact (cpuTopAt_reset h).1
      · rw [h1] at h
        cases h
  rw [retired, hv]
  rfl

/-- **Every cycle with a valid instruction in EX is reported, stalled or not.** -/
theorem retired_succ_succ (h : (x t).rst = false) (h' : (x (t + 1)).rst = false) :
    retired (cpuTopAt x (t + 2)) =
      if (pipeAt x t).idEx.valid then some (reportOf x t) else none := by
  obtain ⟨-, hinstr, hv, -, -⟩ := cpuTopAt_succ h
  obtain ⟨-, -, -, hinstr', hv'⟩ := cpuTopAt_succ h'
  have hmem : (pipeAt x (t + 1)).exMem = exMemNext cpuTopConfig (pipeAt x t) true := by
    rw [pipeAt_succ h]
    rfl
  have hwb : (cpuTopAt x (t + 2)).core.pipe.memWb = memWbNext (pipeAt x (t + 1)) _ :=
    congrArg Pipe.memWb (pipeAt_succ h')
  rw [memWbNext, if_neg (by simp), hmem] at hwb
  rw [retired, hv', hv, hinstr', hinstr, hwb, wbData, hwb]
  cases hEx : (pipeAt x t).idEx.valid with
  | false => rfl
  | true =>
    have hdata : memLoadData (pipeAt x (t + 1)) (x (t + 1)).memReadData =
        lsuLoadData (pipeAt x t).idEx.ctrl.memSize (pipeAt x t).idEx.ctrl.memUnsigned
          ((exAluResult (pipeAt x t)).extractLsb' 0 2) (x (t + 1)).memReadData := by
      simp only [memLoadData, hmem, exMemNext, memStall_ready, Bool.false_eq_true, if_false]
    rw [if_pos rfl, if_pos rfl, reportOf, ← hdata]
    simp only [exMemNext, memStall_ready, Bool.false_eq_true, if_false]
    rfl

theorem retired_start : retired (cpuTopAt x 0) = none ∧ retired (cpuTopAt x 1) = none := by
  refine ⟨rfl, ?_⟩
  have hv : (cpuTopAt x 1).memWbV = false := by
    cases hrst : (x 0).rst with
    | true => exact (cpuTopAt_reset hrst).2
    | false =>
      obtain ⟨-, -, -, -, hwb⟩ := cpuTopAt_succ hrst
      exact hwb
  rw [retired, hv]
  rfl

/-- The report of an instruction that leaves EX is the instruction's own. -/
theorem reportOf_eq (hf : exFires (pipeAt x t) true = true) :
    reportOf x t =
      { pc := (pipeAt x t).idEx.pc
        instr := exInstr x t
        write := exWrite (pipeAt x t) (x (t + 1)).memReadData } := by
  obtain ⟨hs, hm, hEx⟩ := exFires_eq_true.mp hf
  obtain ⟨hpc4, hinstr⟩ := shadow_matches x t hEx
  have hmret := ((pipeAt_staged x t).coherent hEx).mret
  rw [reportOf, hpc4, hinstr, exWrite, BitVec.add_sub_cancel]
  have hvalid : (exMemNext cpuTopConfig (pipeAt x t) true).valid =
      ((exTrap cpuTopConfig (pipeAt x t) true).isNone && !(pipeAt x t).idEx.ctrl.isMret) := by
    simp [exMemNext, hEx, hm]
  rw [hvalid]
  congr 1
  cases hret : (pipeAt x t).idEx.ctrl.isMret with
  | true =>
    rw [hmret hret, Bool.and_false, Bool.and_false]
    rfl
  | false =>
    rw [Bool.not_false, Bool.and_true, exValue]
    cases (pipeAt x t).idEx.ctrl.wbSel <;> rfl

theorem leaving_isSome : (leaving x t).isSome = true ↔
    (x t).rst = false ∧ (x (t + 1)).rst = false ∧ exFires (pipeAt x t) true = true := by
  rw [leaving]
  split_ifs with h
  · simpa [and_assoc] using h
  · simpa [and_assoc] using h

/-- Without a stall in EX the report of cycle `t` comes at `t + 2`. -/
theorem retired_of_leaving (r : Retirement) (h : leaving x t = some r) :
    retired (cpuTopAt x (t + 2)) = some r := by
  obtain ⟨hrst, hrst', hf⟩ := leaving_isSome.mp (Option.isSome_of_eq_some h)
  rw [retired_succ_succ hrst hrst', if_pos (exFires_eq_true.mp hf).2.2, reportOf_eq hf, ← h,
    leaving, if_pos (by simp [hrst, hrst', hf])]

/-- EX is empty in the cycle after an instruction has left it. -/
theorem idEx_empty_of_leaving (h : (leaving x t).isSome = true) :
    (pipeAt x (t + 1)).idEx.valid = false := by
  obtain ⟨hrst, -, hf⟩ := leaving_isSome.mp h
  obtain ⟨-, hm, hEx⟩ := exFires_eq_true.mp hf
  rw [pipeAt_succ hrst, pipeNext_leave (pipeAt_staged x t) hEx hm]
  dsimp only
  split_ifs <;> rfl

end run

/-! ## Reports and instructions -/

/-- A cycle in which EX is occupied and no reset intervenes before WB. -/
def Occupied (x : ℕ → CpuTopIn) (t : ℕ) : Prop :=
  (x t).rst = false ∧ (x (t + 1)).rst = false ∧ (pipeAt x t).idEx.valid = true

theorem retired_isSome_iff {x : ℕ → CpuTopIn} (u : ℕ) :
    (retired (cpuTopAt x u)).isSome = true ↔ ∃ t, Occupied x t ∧ t + 2 = u := by
  obtain ⟨h0, h1⟩ := retired_start (x := x)
  refine ⟨fun h => ?_, ?_⟩
  · rcases u with _ | _ | t
    · rw [h0] at h
      cases h
    · rw [h1] at h
      cases h
    · refine ⟨t, ?_, rfl⟩
      cases hrst : (x t).rst with
      | true =>
        rw [retired_of_reset (.inl hrst)] at h
        cases h
      | false =>
        cases hrst' : (x (t + 1)).rst with
        | true =>
          rw [retired_of_reset (.inr hrst')] at h
          cases h
        | false =>
          rw [retired_succ_succ hrst hrst'] at h
          refine ⟨hrst, hrst', ?_⟩
          by_contra hEx
          rw [if_neg hEx] at h
          cases h
  · rintro ⟨t, ⟨hrst, hrst', hEx⟩, rfl⟩
    rw [retired_succ_succ hrst hrst', if_pos hEx]
    rfl

/-- Exact reports leave no room for a stall in EX. -/
theorem mStall_of_reportsOnce {x : ℕ → CpuTopIn} (h : ReportsOnce x) (t : ℕ)
    (hrst : (x t).rst = false) (hrst' : (x (t + 1)).rst = false) :
    mStall (pipeAt x t) = false := by
  obtain ⟨f, hf, hmono, hsurj⟩ := h
  cases hEx : (pipeAt x t).idEx.valid with
  | false => exact mStall_of_idEx_invalid hEx
  | true =>
    have hmatch : Sequences.Matches f (fun t => (leaving x t).isSome = true)
        (fun u => (retired (cpuTopAt x u)).isSome = true) := by
      constructor
      case later =>
        intro s hs
        obtain ⟨r, hr⟩ := Option.isSome_iff_exists.mp hs
        exact (hf s r hr).1
      case maps =>
        intro s hs
        obtain ⟨r, hr⟩ := Option.isSome_iff_exists.mp hs
        exact Option.isSome_of_eq_some (hf s r hr).2
      case mono => exact hmono
      case surj => exact hsurj
    have hL := hmatch.all_matched (V := Occupied x) ?occupied retired_isSome_iff ?gap t
      ⟨hrst, hrst', hEx⟩
    case occupied =>
      intro s hs
      obtain ⟨hr, hr', hfire⟩ := leaving_isSome.mp hs
      exact ⟨hr, hr', (exFires_eq_true.mp hfire).2.2⟩
    case gap =>
      rintro s hs u hlo hhi ⟨-, -, hv⟩
      obtain rfl : u = s + 1 := by omega
      rw [idEx_empty_of_leaving hs] at hv
      cases hv
    exact (exFires_eq_true.mp (leaving_isSome.mp hL).2.2).2.1

/-- **`cpu_top` reports every instruction exactly once if and only if no multicycle operation
ever holds EX**, for every program, every load data, interrupt and reset. -/
theorem reports_once_iff (x : ℕ → CpuTopIn) :
    ReportsOnce x ↔ ∀ t, (x t).rst = false → (x (t + 1)).rst = false →
      mStall (pipeAt x t) = false := by
  refine ⟨mStall_of_reportsOnce, fun h => ⟨(· + 2), ?_, ?_, ?_⟩⟩
  · intro t r hr
    exact ⟨Nat.lt_add_of_pos_right Nat.two_pos, retired_of_leaving r hr⟩
  · intro t t' _ _ hlt
    exact Nat.add_lt_add_right hlt 2
  · intro u hu
    obtain ⟨t, ⟨hrst, hrst', hEx⟩, rfl⟩ := (retired_isSome_iff u).mp hu
    have hfire := exFires_eq_true.mpr ⟨memStall_ready _, h t hrst hrst', hEx⟩
    exact ⟨t, leaving_isSome.mpr ⟨hrst, hrst', hfire⟩, rfl⟩

/-- `mul x1, x0, x0` at every address. -/
def mulEverywhere (_ : ℕ) : CpuTopIn := { instruction := 0x020000b3#32 }

/-- The multiplier holds EX in cycle 3, and the first `mul` is reported more than once. -/
theorem reports_more_than_once : ¬ ∀ x, ReportsOnce x := by
  intro h
  have hm := mStall_of_reportsOnce (h mulEverywhere) 3 rfl rfl
  revert hm
  decide

end RiscvV2
