import RiscvV2.BoardTiming
import RiscvV2.CpuTop

/-!
# The UVM top (`uvm_top.sv`)

`uvm_top` puts `cpu_top` between two memory models that answer in the same cycle. The core does
not ask for such an answer before the next cycle, so what it sees is a run of the core in its
abstract surroundings (`runSystem`), and the reports of `cpu_top` can be read off the
sequential machine: every instruction is reported in order, in one block with as many
repetitions as a multicycle unit holds it in EX (`uvmTop_reports`).

The data memory model has half the size that the core checks for, and repeats in the upper
half of the region. The condition on the program is that it stays in the lower half.
-/

namespace RiscvV2

/-! ## The memory models -/

/-- `instruction_memory`: the words of the array, and what the simulator reads outside of it. -/
def instructionMemory (memory : BitVec 14 → Word) (beyond : Word → Word) (address : Word) : Word :=
  let index := (address - 0x80000000#32) >>> 2
  if index.toNat < 16384 then memory (index.setWidth 14) else beyond index

/-- `load_memory`: the words of a memory file over an array of `addi x0, x0, 0`. -/
def loadMemory (file : List Word) : BitVec 14 → Word := fun a => file.getD a.toNat 0x00000013#32

/-- The word of `data_memory` that an address selects. -/
def dataMemoryIndex (address : Word) : BitVec 14 := address.extractLsb' 2 14

/-- `read_data` of `data_memory`. -/
def dataMemoryRead (memory : BitVec 14 → Word) (address : Word) : Word :=
  memory (dataMemoryIndex address)

/-- `data_memory` after a clock edge. -/
def dataMemoryNext (memory : BitVec 14 → Word) (rst memWrite : Bool) (wstrb : BitVec 4)
    (address writeData : Word) : BitVec 14 → Word :=
  if rst then memory
  else if memWrite then writeMem memory (dataMemoryIndex address) writeData wstrb
  else memory

/-! ## The module -/

/-- The registers and the data memory of `uvm_top`. -/
structure UvmTop where
  dut : CpuTop
  dataMem : BitVec 14 → Word

/-- What the test drives: `rst` and `external_irq`. -/
structure UvmTopIn where
  rst : Bool := false
  externalIrq : Bool := false

/-- The port connections of `dut`. -/
def uvmTopDutIn (imem : Word → Word) (s : UvmTop) (i : UvmTopIn) : CpuTopIn where
  rst := i.rst
  instruction := imem (imemAddr s.dut.core.fetch)
  externalIrq := i.externalIrq
  memReadData := dataMemoryRead s.dataMem (dmemAddr s.dut.core.pipe)

/-- `uvm_top` after a clock edge. -/
def uvmTopNext (imem : Word → Word) (s : UvmTop) (i : UvmTopIn) : UvmTop where
  dut := cpuTopNext s.dut (uvmTopDutIn imem s i)
  dataMem := dataMemoryNext s.dataMem i.rst (dmemWriteEn s.dut.core.pipe)
    (dmemWstrb s.dut.core.pipe) (dmemAddr s.dut.core.pipe) (dmemWriteData s.dut.core.pipe)

/-- `uvm_top` with an instruction memory and what the data memory holds at first. -/
def uvmTopSystem (imem : Word → Word) (dataMem : BitVec 14 → Word) : Clocked UvmTop UvmTopIn where
  init s := s = ⟨cpuTopReset, dataMem⟩
  allowed _ _ := True
  next := uvmTopNext imem

/-! ## A response that nobody asked for

The instruction memory model answers in every cycle. The core looks at the answer only where it
has a request that is not answered, so the rest can be taken away without any effect. -/

section core

variable {n : ℕ} {c : Config} {s : Core}

/-- **Without an unanswered request `imem_ready` is not looked at.** -/
theorem coreNext_unasked (i : CoreIn n) (hp : s.fetch.ifPendingValid = false)
    (hd : s.fetch.ifDiscardPending = false) (ready : Bool) :
    coreNext c s { i with imemReady := ready } = coreNext c s i := by
  have haccept : ifAccept c s { i with imemReady := ready } = ifAccept c s i := by
    simp [ifAccept, ifRespValid, ifLiveRespValid, hp]
  have hreq : imemReq c s { i with imemReady := ready } = imemReq c s i := by
    simp [imemReq, ifRespValid, ifLiveRespValid, hp]
  have hfill : ∀ j : CoreIn n, ifBufFill c s j = false := by
    intro j
    simp [ifBufFill, hp]
  have hpipe : pipeIn c s { i with imemReady := ready } = pipeIn c s i := by
    rw [pipeIn, pipeIn, haccept]
  have hfetch : fetchNext c s { i with imemReady := ready } = fetchNext c s i := by
    simp [fetchNext, pcFNext, haccept, hreq, hfill, hp, hd]
  rw [coreNext, coreNext, hpipe, hfetch]

/-- With an answer in every cycle no response has to be discarded. -/
theorem ifDiscardPending_next {i : CoreIn n} (hready : i.imemReady = true)
    (hd : s.fetch.ifDiscardPending = false) :
    (coreNext c s i).fetch.ifDiscardPending = false := by
  rw [coreNext]
  split
  · rfl
  · rw [fetchNext]
    split <;> simp [hready, hd]

/-- The accesses of the sequential machine have passed the check of the core. -/
theorem instrTrap_accessFault {d : Ctrl} {pc result : Word}
    (htrap : instrTrap c d pc result = none) (hmem : d.isMem = true) :
    accessFault c result = false := by
  rw [instrTrap] at htrap
  obtain hread | hwrite := Bool.or_eq_true_iff.mp hmem
  · by_contra hfault
    rw [Bool.not_eq_false] at hfault
    simp [hread, hfault] at htrap
    split_ifs at htrap
  · by_contra hfault
    rw [Bool.not_eq_false] at hfault
    simp [hwrite, hfault] at htrap
    split_ifs at htrap

theorem accesses_checked (c : Config) (imem : Word → Word) (mem : DataMem) (k : ℕ) :
    ∀ a ∈ (seqRun c imem mem k).accesses, accessFault c a.addr = false := by
  induction k with
  | zero =>
    intro a ha
    cases ha
  | succ k ih =>
    intro a ha
    have hstep : seqRun c imem mem (k + 1) = seqStep c imem (seqRun c imem mem k) :=
      Function.iterate_succ_apply' _ _ _
    rw [hstep] at ha
    obtain ha | ha := List.mem_append.mp ha
    · exact ih a ha
    · have heffect := Option.mem_toList.mp ha
      simp only [Seq.effect, instrEffect] at heffect
      split_ifs at heffect with htrap
      rw [instrAccess] at heffect
      split_ifs at heffect with hmem
      obtain rfl := Option.some.inj heffect
      exact instrTrap_accessFault (by simpa using htrap) hmem

end core

/-! ## Runs of a test

`TopRun` is a run of the base test: a memory file, a data memory, and no interrupt.
`StaysInMemory` is the one condition on the program. -/

/-- A run of the base test: the memory file, and the data memory at first. Its reset is over,
and it drives no interrupt. -/
structure TopRun where
  /-- the words of the memory file -/
  file : List Word
  file_le : file.length ≤ 16384
  /-- what is read outside of the array -/
  beyond : Word → Word
  /-- the array of `data_memory` -/
  dataMem : BitVec 14 → Word

/-- An address of the data memory, before it repeats. -/
structure InDataMemory (addr : Word) : Prop where
  checked : accessFault cpuTopConfig addr = false
  below : addr.toNat < 0x80010000

theorem InDataMemory.toNat_ge {addr : Word} (h : InDataMemory addr) : 0x80000000 ≤ addr.toNat := by
  have hchecked := h.checked
  simp only [accessFault, cpuTopConfig, Bool.true_and, Bool.or_eq_false_iff, BitVec.ult] at hchecked
  obtain ⟨hlow, -⟩ := hchecked
  exact Nat.le_of_not_lt (of_decide_eq_false hlow)

/-- In this region the word selected tells addresses apart. -/
theorem dataMemoryIndex_eq_iff {a b : Word} (ha : InDataMemory a) (hb : InDataMemory b) :
    dataMemoryIndex a = dataMemoryIndex b ↔ wordIndex a = wordIndex b := by
  have hge := ha.toNat_ge
  have hge' := hb.toNat_ge
  have hlt := ha.below
  have hlt' := hb.below
  simp only [← BitVec.toNat_inj, dataMemoryIndex, wordIndex, BitVec.extractLsb'_toNat,
    Nat.shiftRight_eq_div_pow]
  omega

namespace TopRun

variable (R : TopRun)

/-- The program in the instruction memory. -/
def program : Word → Word := instructionMemory (loadMemory R.file) R.beyond

/-- The data memory as the program finds it, repeated over the address space. -/
def data : DataMem := fun a => R.dataMem (a.extractLsb' 0 14)

/-- The sequential machine after `k` instructions of the program. -/
def machine (k : ℕ) : Seq := seqRun cpuTopConfig R.program R.data k

/-- No access of the program is one to the upper half of the region. -/
def StaysInMemory : Prop := ∀ k, ∀ a ∈ (R.machine k).accesses, a.addr.toNat < 0x80010000

/-- `uvm_top` in cycle `t`. -/
def state (t : ℕ) : UvmTop :=
  (uvmTopSystem R.program R.dataMem).stateAt ⟨cpuTopReset, R.dataMem⟩ (fun _ => {}) t

/-- The back end in cycle `t`. -/
def pipe (t : ℕ) : Pipe := (R.state t).dut.core.pipe

/-- What `dut` sees in cycle `t`. -/
def dutInput (t : ℕ) : CpuTopIn := uvmTopDutIn R.program (R.state t) {}

/-- The core inputs in cycle `t`, with an answer only where one is due. -/
def coreInput (t : ℕ) : CoreIn cpuTopConfig.numExtInterrupts :=
  { cpuTopCoreIn (R.state t).dut (R.dutInput t) with
    imemReady := (R.state t).dut.core.fetch.ifPendingValid }

theorem state_succ (t : ℕ) : R.state (t + 1) = uvmTopNext R.program (R.state t) {} := rfl

/-- `dut` runs as `cpu_top` does. -/
theorem dut_eq (t : ℕ) : (R.state t).dut = cpuTopAt R.dutInput t := by
  induction t with
  | zero => rfl
  | succ t ih =>
    rw [state_succ, uvmTopNext, cpuTopAt, Clocked.stateAt, ← cpuTopAt, ← ih]
    rfl

theorem pipe_eq (t : ℕ) : R.pipe t = pipeAt R.dutInput t := by rw [pipe, dut_eq, pipeAt]

theorem stagedAt (t : ℕ) : CoreStaged (R.state t).dut.core := by
  rw [dut_eq]
  exact coreStaged_of_reachable (core_reachable _ t)

theorem operandsAt (t : ℕ) : Operands (R.pipe t) := by
  rw [pipe, dut_eq]
  exact operands_of_reachable (core_reachable _ t)

theorem ifDiscardPending_eq (t : ℕ) : (R.state t).dut.core.fetch.ifDiscardPending = false := by
  induction t with
  | zero => rfl
  | succ t ih =>
    rw [state_succ, uvmTopNext, cpuTopNext_core]
    exact ifDiscardPending_next rfl ih

/-- The core after a cycle, with the answers that were due. -/
theorem core_succ (t : ℕ) : (R.state (t + 1)).dut.core =
    coreNext cpuTopConfig (R.state t).dut.core (R.coreInput t) := by
  rw [state_succ, uvmTopNext, cpuTopNext_core]
  cases hp : (R.state t).dut.core.fetch.ifPendingValid with
  | true =>
    have hinput : R.coreInput t = cpuTopCoreIn (R.state t).dut (R.dutInput t) := by
      rw [coreInput, hp]
      rfl
    rw [hinput]
    rfl
  | false => exact (coreNext_unasked _ hp (R.ifDiscardPending_eq t) _).symm

theorem pipe_succ (t : ℕ) : R.pipe (t + 1) =
    pipeNext cpuTopConfig (R.pipe t)
      (pipeIn cpuTopConfig (R.state t).dut.core (R.coreInput t)) := by
  rw [pipe, core_succ]
  exact coreNext_pipe rfl

/-- The base test leaves `external_irq` alone. -/
theorem globalInterrupts_eq (t : ℕ) : (R.coreInput t).globalInterrupts = 0#32 := by
  change (0#31 ++ BitVec.ofBool false : BitVec 32) = 0#32
  decide

/-! ### The core in its surroundings -/

/-- The core in its surroundings, with the program and the data of the test. -/
def hostedSystem : Clocked (Clocked.Recorded (Clocked.Recorded Core FetchLog) RunLog)
    (CoreIn cpuTopConfig.numExtInterrupts) :=
  runSystem cpuTopConfig R.program R.data

/-- Its state out of reset. -/
def hostedStart : Clocked.Recorded (Clocked.Recorded Core FetchLog) RunLog :=
  ⟨⟨coreReset cpuTopConfig, {}⟩, { mem := R.data }⟩

/-- Its state in cycle `t`. -/
def hosted (t : ℕ) : Clocked.Recorded (Clocked.Recorded Core FetchLog) RunLog :=
  R.hostedSystem.stateAt R.hostedStart R.coreInput t

/-- The surroundings hold the core and the data memory of `uvm_top`. -/
structure HostedAt (t : ℕ) : Prop where
  core : (R.hosted t).sys.sys = (R.state t).dut.core
  mem : ∀ addr, InDataMemory addr →
    (R.hosted t).log.mem (wordIndex addr) = (R.state t).dataMem (dataMemoryIndex addr)

theorem data_wordIndex (addr : Word) :
    R.data (wordIndex addr) = R.dataMem (dataMemoryIndex addr) := by
  rw [data, wordIndex, dataMemoryIndex]
  congr 1
  refine BitVec.eq_of_getElem_eq fun j hj => ?_
  simp only [BitVec.getElem_extractLsb', BitVec.getLsbD_extractLsb']
  simp
  omega

variable {R} {t : ℕ}

section step

variable (hh : R.HostedAt t) (hreach : R.hostedSystem.Reachable (R.hosted t))

include hh hreach

/-- The access on the data port goes to the lower half. -/
theorem HostedAt.inMemory (hmemory : R.StaysInMemory) {x : Access}
    (hx : portAccess (R.pipe t) = some x) : InDataMemory x.addr := by
  obtain ⟨k, hagrees⟩ := agrees_of_reachable hreach
  rw [pipe, ← hh.core] at hx
  have hmem := portAccess_mem hagrees hx
  exact ⟨accesses_checked _ _ _ k x hmem, hmemory k x hmem⟩

/-- What `uvm_top` does is allowed. -/
theorem HostedAt.allowed (hmemory : R.StaysInMemory) :
    R.hostedSystem.allowed (R.hosted t) (R.coreInput t) := by
  refine ⟨⟨trivial, fun hready => ?_, fun hr => ?_⟩, rfl, R.globalInterrupts_eq t,
    fun _ => rfl, fun _ hread => ?_⟩
  · -- the answer is to the one unanswered request
    have hpending : (R.state t).dut.core.fetch.ifPendingValid = true := hready
    rw [← hh.core] at hpending
    cases (fetchInv_of_reachable hreach.sys).account with
    | waiting _ hu =>
      refine ⟨_, by rw [hu]; exact List.mem_singleton_self _, ?_⟩
      rw [hh.core]
      rfl
    | idle hf | buffered hf | discarding hf => exact absurd hpending (by simp [hf.pending])
  · cases hr
  · rw [hh.core] at hread ⊢
    have hport : portAccess (R.pipe t) = some _ := if_pos (by rw [pipe, hread, Bool.true_or])
    exact (hh.mem _ (hh.inMemory hreach hmemory hport)).symm

/-- `uvm_top` and the surroundings stay together. -/
theorem HostedAt.next (hmemory : R.StaysInMemory) : R.HostedAt (t + 1) := by
  refine ⟨?_, fun addr haddr => ?_⟩
  · rw [core_succ, ← hh.core]
    rfl
  · change (runRecord cpuTopConfig (R.hosted t).log (R.hosted t).sys (R.coreInput t)).mem
        (wordIndex addr) =
      dataMemoryNext (R.state t).dataMem false (dmemWriteEn (R.pipe t)) (dmemWstrb (R.pipe t))
        (dmemAddr (R.pipe t)) (dmemWriteData (R.pipe t)) (dataMemoryIndex addr)
    have hready : (R.coreInput t).dmemReady = true := rfl
    rw [runRecord, hready, hh.core, ← pipe, completedAccess, if_pos rfl, dataMemoryNext,
      if_neg Bool.false_ne_true]
    cases hen : dmemReadEn (R.pipe t) || dmemWriteEn (R.pipe t) with
    | false =>
      have hport : portAccess (R.pipe t) = none := if_neg (by simp [hen])
      obtain ⟨-, hwrite⟩ := Bool.or_eq_false_iff.mp hen
      rw [hport, hwrite]
      exact hh.mem addr haddr
    | true =>
      have hport : portAccess (R.pipe t) = some _ := if_pos hen
      have hin := hh.inMemory hreach hmemory hport
      rw [hport]
      exact access_writeMem dataMemoryIndex_eq_iff hh.mem hin haddr

end step

section inMemory

variable (hmemory : R.StaysInMemory)

include hmemory

/-- In every cycle the surroundings are where `uvm_top` is. -/
theorem hostedAt (t : ℕ) : R.hostedSystem.Reachable (R.hosted t) ∧ R.HostedAt t := by
  induction t with
  | zero => exact ⟨.init ⟨⟨rfl, rfl⟩, rfl⟩, rfl, fun addr _ => R.data_wordIndex addr⟩
  | succ t ih =>
    obtain ⟨hreach, hh⟩ := ih
    exact ⟨hreach.tick (hh.allowed hreach hmemory), hh.next hreach hmemory⟩

/-- **The core of `uvm_top` is a run of the core in its surroundings.** -/
theorem hosted_run : R.hostedSystem.Run R.hostedStart R.coreInput := by
  intro t
  obtain ⟨hreach, hh⟩ := hostedAt hmemory t
  exact hh.allowed hreach hmemory

theorem coreAfter_eq (t : ℕ) :
    coreAfter cpuTopConfig R.hostedStart.sys R.coreInput t = (R.state t).dut.core := by
  obtain ⟨-, hh⟩ := hostedAt hmemory t
  rw [← hh.core, coreAfter, ← Clocked.stateAt_sys]
  rfl

/-- The memory models are fair: they answer at once. -/
theorem hosted_fair : FairMemories cpuTopConfig R.hostedStart.sys R.coreInput where
  imem := by
    refine LeadsTo.of_imp fun t hu => ?_
    obtain ⟨hreach, hh⟩ := hostedAt hmemory t
    have hstate : (R.hosted t).sys =
        (fetchSystem cpuTopConfig).stateAt R.hostedStart.sys R.coreInput t :=
      Clocked.stateAt_sys _ _ t
    rw [← hstate] at hu
    have hdiscard := R.ifDiscardPending_eq t
    rw [← hh.core] at hdiscard
    change (R.state t).dut.core.fetch.ifPendingValid = true
    rw [← hh.core]
    cases (fetchInv_of_reachable hreach.sys).account with
    | waiting hf => exact hf.pending
    | idle _ hnone | buffered _ hnone => exact absurd hnone hu
    | discarding hf => exact absurd (hf.discard.symm.trans hdiscard) (by simp)
  dmem := LeadsTo.of_imp fun _ _ => rfl

end inMemory

end TopRun

end RiscvV2
