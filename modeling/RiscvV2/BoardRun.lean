import RiscvV2.Bram
import RiscvV2.Completeness

/-!
# Programs on the board

The block RAM adapter keeps what the core asks of its memories, so the core on the board is a
run of the core in its abstract surroundings (`runSystem`): the program is the contents of one
block RAM and the data memory that of the other. The condition is on the program: its accesses
stay inside the data RAM, away from the peripheral region and below the address at which the
RAM repeats.

The abstract surroundings give the core one memory for its program and one for its data, and let
them answer when they like. `Hosts` relates a state of the board to a state of these
surroundings: the core is the same, and the data RAM agrees with the data memory on every
address the program uses. The relation is kept by every cycle without a reset, and so everything
that is proved of the core with arbitrary memories holds on the board.
-/

namespace RiscvV2

variable {w : WrapperConfig} {imem₀ dmem₀ : BitVec w.addrWidth → Word}

/-! ## The program's view of a RAM -/

/-- A RAM that agrees with the data memory on some addresses, which it tells apart, does so
after an access to one of them. -/
theorem access_writeMem {k : ℕ} {index : Word → BitVec k} {A : Word → Prop}
    (hindex : ∀ {a b}, A a → A b → (index a = index b ↔ wordIndex a = wordIndex b))
    {g : DataMem} {mem : BitVec k → Word}
    (h : ∀ addr, A addr → g (wordIndex addr) = mem (index addr)) {x : Access}
    (hx : A x.addr) {addr : Word} (haddr : A addr) :
    DataMem.access g x (wordIndex addr) =
      (if x.write = true then writeMem mem (index x.addr) x.writeData x.wstrb else mem)
        (index addr) := by
  rw [DataMem.access]
  split
  · rw [writeMem, Function.update_apply]
    dsimp only
    by_cases heq : index addr = index x.addr
    · rw [if_pos heq, if_pos ((hindex haddr hx).mp heq), h addr haddr, heq]
    · rw [if_neg heq, if_neg fun hword => heq ((hindex haddr hx).mpr hword), h addr haddr]
  · exact h addr haddr

/-! ## The program's view of the block RAMs

An address selects a word by its low bits only. Inside the RAM this is one to one, and outside
of it two addresses would share a word, which the program's memory does not have. -/

/-- The program in the instruction RAM. -/
def boardProgram (w : WrapperConfig) (imem : BitVec w.addrWidth → Word) (pc : Word) : Word :=
  imem (bramIndex w pc)

/-- The data memory: the data RAM, repeated over the address space. -/
def boardData (w : WrapperConfig) (dmem : BitVec w.addrWidth → Word) : DataMem :=
  fun a => dmem (a.extractLsb' 0 w.addrWidth)

/-- An address of the data RAM proper. -/
def InRam (w : WrapperConfig) (addr : Word) : Prop :=
  addr.toNat < 2 ^ (w.addrWidth + 2) ∧ inAxiRegion w addr = false

theorem bramIndex_wordIndex (addr : Word) :
    (wordIndex addr).extractLsb' 0 w.addrWidth = bramIndex w addr := by
  have hw := w.addrWidth_le
  refine BitVec.eq_of_getElem_eq fun j hj => ?_
  simp only [wordIndex, bramIndex, BitVec.getElem_extractLsb', BitVec.getLsbD_extractLsb']
  simp
  omega

theorem boardData_wordIndex (dmem : BitVec w.addrWidth → Word) (addr : Word) :
    boardData w dmem (wordIndex addr) = dmem (bramIndex w addr) := by
  rw [boardData, bramIndex_wordIndex]

/-- Inside the RAM, words with one index are one word. -/
theorem wordIndex_of_bramIndex {a b : Word} (ha : InRam w a) (hb : InRam w b)
    (h : bramIndex w a = bramIndex w b) : wordIndex a = wordIndex b := by
  have hnat := congrArg BitVec.toNat h
  have hpow : 2 ^ (w.addrWidth + 2) = 2 ^ w.addrWidth * 4 := by rw [Nat.pow_add]
  have hba := ha.1
  have hbb := hb.1
  rw [hpow] at hba hbb
  simp only [bramIndex, BitVec.extractLsb'_toNat, Nat.shiftRight_eq_div_pow] at hnat
  rw [Nat.mod_eq_of_lt (by omega), Nat.mod_eq_of_lt (by omega)] at hnat
  refine BitVec.eq_of_toNat_eq ?_
  simp only [wordIndex, BitVec.extractLsb'_toNat, Nat.shiftRight_eq_div_pow]
  omega

/-! ## The core on the board and the core in its surroundings -/

/-- The inputs of the core on the board. -/
def boardCoreIn (s : Board w) (i : WrapperIn w.numExtInterrupts) :
    CoreIn (coreConfig w).numExtInterrupts :=
  coreIn w s.wrapper (boardIn s i)

/-- The board and the core in its surroundings: one core, and one data memory. -/
structure Hosts (b : Clocked.Recorded (Board w) (BramLog w))
    (r : Clocked.Recorded (Clocked.Recorded Core FetchLog) RunLog) : Prop where
  core : r.sys.sys = b.sys.wrapper.core
  mem : ∀ addr, InRam w addr → r.log.mem (wordIndex addr) = b.log.mem (bramIndex w addr)

section step

variable {b : Clocked.Recorded (Board w) (BramLog w)}
  {r : Clocked.Recorded (Clocked.Recorded Core FetchLog) RunLog}
  {i : WrapperIn w.numExtInterrupts}

/-- The access on the data port is one of the sequential machine. -/
theorem portAccess_mem {imem : Word → Word} {s : Core} {g : RunLog} {a : Seq} {x : Access}
    (h : Agrees imem s g a) (hx : portAccess s.pipe = some x) : x ∈ a.accesses := by
  rw [h.back.accesses, hx]
  simp

/-- The access that the wrapper sees. -/
theorem portAccess_of_acc (hacc : dmemAcc b.sys.wrapper = true) :
    portAccess b.sys.wrapper.core.pipe = some
      { write := dmemWriteEn b.sys.wrapper.core.pipe
        addr := dmemAddr b.sys.wrapper.core.pipe
        writeData := dmemWriteData b.sys.wrapper.core.pipe
        wstrb := dmemWstrb b.sys.wrapper.core.pipe } :=
  if_pos hacc

/-- Where the two data memories agree inside the RAM, they do so after the access on the
port. -/
theorem access_storeMem {s : Wrapper} {g : DataMem} {mem : BitVec w.addrWidth → Word}
    (h : ∀ addr, InRam w addr → g (wordIndex addr) = mem (bramIndex w addr))
    (hport : InRam w (dmemAddr s.core.pipe)) {addr : Word} (haddr : InRam w addr) :
    DataMem.access g
        { write := dmemWriteEn s.core.pipe
          addr := dmemAddr s.core.pipe
          writeData := dmemWriteData s.core.pipe
          wstrb := dmemWstrb s.core.pipe } (wordIndex addr) =
      (if dmemWriteEn s.core.pipe = true then storeMem s mem else mem) (bramIndex w addr) := by
  refine access_writeMem (fun ha hb => ⟨wordIndex_of_bramIndex ha hb, fun hword => ?_⟩) h hport
    haddr
  rw [← bramIndex_wordIndex, hword, bramIndex_wordIndex]

/-- The access on the data port, if there is one, goes to the data RAM. -/
theorem dmemSelBram_of_inRam {a : Seq} (hh : Hosts b r)
    (hagrees : Agrees (boardProgram w imem₀) r.sys.sys r.log a)
    (hram : ∀ x ∈ a.accesses, InRam w x.addr) (hacc : dmemAcc b.sys.wrapper = true) :
    InRam w (dmemAddr b.sys.wrapper.core.pipe) ∧ dmemSelBram w b.sys.wrapper = true := by
  have hport := portAccess_of_acc hacc
  rw [← hh.core] at hport
  have hin := hram _ (portAccess_mem hagrees hport)
  rw [hh.core] at hin
  refine ⟨hin, ?_⟩
  rw [dmemSelBram_eq, hacc, hin.2]
  rfl

/-- A response on the board is the word asked for. -/
theorem board_response (hI : BramInv w imem₀ b.sys b.log)
    (hready : (boardCoreIn b.sys i).imemReady = true) :
    b.sys.wrapper.core.fetch.Waiting ∧
      (boardCoreIn b.sys i).imemRespPc = b.sys.wrapper.core.fetch.pcF ∧
      (boardCoreIn b.sys i).imemInstr = boardProgram w imem₀ b.sys.wrapper.core.fetch.pcF := by
  have hready' : imemReady b.sys.wrapper = true := hready
  have hfetch := hI.fetch
  generalize b.log.fetch = f at hfetch
  cases hfetch with
  | none hq =>
    rw [imemReady, hq] at hready'
    cases hready'
  | some hq haddr hwait hd =>
    refine ⟨hwait, haddr, ?_⟩
    rw [boardProgram, ← hI.imem]
    exact hd

/-- **The board keeps the fetch protocol.** -/
theorem board_fetchAllowed {s : Core} {f : FetchLog} (hI : BramInv w imem₀ b.sys b.log)
    (hF : FetchInv (coreConfig w) s f) (hcore : s = b.sys.wrapper.core)
    (hrunning : cpuReset b.sys.wrapper i = false) : fetchAllowed f s (boardCoreIn b.sys i) := by
  refine ⟨fun hready => ?_, fun hr => ?_⟩
  · -- the answer is to the one unanswered request
    obtain ⟨hwait, hpc, -⟩ := board_response hI hready
    rw [← hcore] at hwait hpc
    cases hF.account with
    | waiting _ hu => exact ⟨_, by rw [hu]; exact List.mem_singleton_self _, hpc.symm⟩
    | idle hf | buffered hf | discarding hf => exact absurd hwait.pending (by simp [hf.pending])
  · have hreset : (boardCoreIn b.sys i).reset = false := hrunning
    rw [hreset] at hr
    cases hr

/-- **What the board does is allowed.** -/
theorem board_allowed {a : Seq} (hI : BramInv w imem₀ b.sys b.log)
    (hF : FetchInv (coreConfig w) r.sys.sys r.sys.log) (hh : Hosts b r)
    (hagrees : Agrees (boardProgram w imem₀) r.sys.sys r.log a)
    (hram : ∀ x ∈ a.accesses, InRam w x.addr) (hrunning : cpuReset b.sys.wrapper i = false)
    (hquiet : i.globalInterrupts = 0#_) (mem : DataMem) :
    (runSystem (coreConfig w) (boardProgram w imem₀) mem).allowed r (boardCoreIn b.sys i) := by
  refine ⟨⟨trivial, board_fetchAllowed hI hF hh.core hrunning⟩, hrunning, hquiet,
    fun hready => ?_, fun hready hread => ?_⟩
  · obtain ⟨-, hpc, hinstr⟩ := board_response hI hready
    rw [hinstr, hpc]
  · rw [hh.core] at hread ⊢
    have hacc : dmemAcc b.sys.wrapper = true := by rw [dmemAcc, hread, Bool.true_or]
    obtain ⟨hin, hsel⟩ := dmemSelBram_of_inRam hh hagrees hram hacc
    rw [hh.mem _ hin]
    exact (hI.second_cycle i hsel).2.2 hready

/-- **The board and the surroundings stay together**, whatever is allowed. -/
theorem hosts_next {a : Seq} {imem : Word → Word} {mem : DataMem} (hh : Hosts b r)
    (hagrees : Agrees (boardProgram w imem₀) r.sys.sys r.log a)
    (hram : ∀ x ∈ a.accesses, InRam w x.addr) (hrunning : cpuReset b.sys.wrapper i = false) :
    Hosts ((bramSystem w imem₀ dmem₀).next b i)
      ((runSystem (coreConfig w) imem mem).next r (boardCoreIn b.sys i)) := by
  refine ⟨?_, fun addr haddr => ?_⟩
  · exact congrArg (fun s => coreNext (coreConfig w) s (boardCoreIn b.sys i)) hh.core
  · change (runRecord (coreConfig w) r.log r.sys (boardCoreIn b.sys i)).mem (wordIndex addr) =
      (bramRecord b.log b.sys i).mem (bramIndex w addr)
    rw [runRecord, bramRecord, hh.core, if_neg (by simp [hrunning])]
    have hready : (boardCoreIn b.sys i).dmemReady = dmemReady w b.sys.wrapper (boardIn b.sys i) :=
      rfl
    rw [hready, completedAccess]
    cases dmemReady w b.sys.wrapper (boardIn b.sys i) with
    | false =>
      rw [Bool.and_false]
      exact hh.mem addr haddr
    | true =>
      rw [if_pos rfl, Bool.and_true]
      cases hacc : dmemAcc b.sys.wrapper with
      | false =>
        have hport : portAccess b.sys.wrapper.core.pipe = none := by
          rw [portAccess]
          exact if_neg (Bool.eq_false_iff.mp hacc)
        have hsel : dmemSelBram w b.sys.wrapper = false := by rw [dmemSelBram, hacc, Bool.false_and]
        rw [hport, hsel]
        exact hh.mem addr haddr
      | true =>
        obtain ⟨hin, hsel⟩ := dmemSelBram_of_inRam hh hagrees hram hacc
        have hport := portAccess_of_acc hacc
        rw [hport, hsel, Bool.true_and]
        exact access_storeMem hh.mem hin haddr

end step

/-! ## Runs

`BoardRun` collects what the later modules assume of a run: it begins with the core just out of
reset and never resets it. -/

/-- A run of the board that begins with the core just out of reset and never resets it. -/
structure BoardRun (w : WrapperConfig) where
  /-- the instruction RAM -/
  imem : BitVec w.addrWidth → Word
  /-- the data RAM at power-up -/
  dmem : BitVec w.addrWidth → Word
  start : Clocked.Recorded (Board w) (BramLog w)
  input : ℕ → WrapperIn w.numExtInterrupts
  reachable : (bramSystem w imem dmem).Reachable start
  fresh : start.sys.wrapper.core = coreReset (coreConfig w)
  running : ∀ t, cpuReset ((bramSystem w imem dmem).stateAt start input t).sys.wrapper
    (input t) = false

namespace BoardRun

variable (R : BoardRun w)

/-- The board in cycle `t`. -/
def state (t : ℕ) : Clocked.Recorded (Board w) (BramLog w) :=
  (bramSystem w R.imem R.dmem).stateAt R.start R.input t

/-- The core in cycle `t`. -/
def core (t : ℕ) : Core := (R.state t).sys.wrapper.core

/-- What the core sees in cycle `t`. -/
def coreInput (t : ℕ) : CoreIn (coreConfig w).numExtInterrupts :=
  boardCoreIn (R.state t).sys (R.input t)

/-- The program that the board runs. -/
def program : Word → Word := boardProgram w R.imem

/-- The data memory that the program finds. -/
def data : DataMem := boardData w R.start.sys.dmem.mem

/-- The sequential machine after `k` instructions of the program. -/
def machine (k : ℕ) : Seq := seqRun (coreConfig w) R.program R.data k

/-- There are no interrupts. -/
def Quiet : Prop := ∀ t, (R.input t).globalInterrupts = 0#_

/-- Every access of the program is one to the data RAM. -/
def StaysInRam : Prop := ∀ k, ∀ a ∈ (R.machine k).accesses, InRam w a.addr

/-- The core in its surroundings, with the program and the data of the board. -/
def hostedSystem : Clocked (Clocked.Recorded (Clocked.Recorded Core FetchLog) RunLog)
    (CoreIn (coreConfig w).numExtInterrupts) :=
  runSystem (coreConfig w) R.program R.data

/-- Its state out of reset. -/
def hostedStart : Clocked.Recorded (Clocked.Recorded Core FetchLog) RunLog :=
  ⟨⟨coreReset (coreConfig w), {}⟩, { mem := R.data }⟩

/-- Its state in cycle `t`, with the inputs that the core sees on the board. -/
def hosted (t : ℕ) : Clocked.Recorded (Clocked.Recorded Core FetchLog) RunLog :=
  R.hostedSystem.stateAt R.hostedStart R.coreInput t

theorem reachableAt (t : ℕ) : (bramSystem w R.imem R.dmem).Reachable (R.state t) := by
  have hrun : (bramSystem w R.imem R.dmem).Run R.start R.input := fun _ => ⟨trivial, trivial⟩
  exact hrun.reachable R.reachable t

theorem bramInvAt (t : ℕ) : BramInv w R.imem (R.state t).sys (R.state t).log :=
  bramInv_of_reachable (R.reachableAt t)

theorem stagedAt (t : ℕ) : CoreStaged (R.core t) := (R.bramInvAt t).wrapper.port.staged

theorem pipe_succ (t : ℕ) : (R.core (t + 1)).pipe =
    pipeNext (coreConfig w) (R.core t).pipe (pipeIn (coreConfig w) (R.core t) (R.coreInput t)) :=
  coreNext_pipe (R.running t)

/-- With the core out of reset the data RAM is what the record says. -/
theorem hosts_start : Hosts R.start R.hostedStart := by
  refine ⟨R.fresh.symm, fun addr _ => ?_⟩
  have hmem := (bramInv_of_reachable R.reachable).port.mem_eq
  have hacc : dmemAcc R.start.sys.wrapper = false := by
    rw [dmemAcc, R.fresh]
    rfl
  rw [dmemSelBram, hacc, Bool.false_and, Bool.false_and, Bool.false_and,
    if_neg Bool.false_ne_true] at hmem
  rw [← hmem]
  exact boardData_wordIndex _ addr

section inRam

variable (hquiet : R.Quiet) (hram : R.StaysInRam)

include hquiet hram

/-- In every cycle the board hosts a reachable state of the core in its surroundings. -/
theorem hosts (t : ℕ) :
    R.hostedSystem.Reachable (R.hosted t) ∧ Hosts (R.state t) (R.hosted t) := by
  induction t with
  | zero => exact ⟨.init ⟨⟨rfl, rfl⟩, rfl⟩, R.hosts_start⟩
  | succ t ih =>
    obtain ⟨hreach, hh⟩ := ih
    obtain ⟨k, hagrees⟩ := agrees_of_reachable hreach
    have hok := board_allowed (i := R.input t) (R.bramInvAt t) (fetchInv_of_reachable hreach.sys)
      hh hagrees (hram k) (R.running t) (hquiet t) R.data
    exact ⟨hreach.tick hok, hosts_next hh hagrees (hram k) (R.running t)⟩

/-- **The core on the board is a run of the core in its surroundings.** -/
theorem hosted_run : R.hostedSystem.Run R.hostedStart R.coreInput := by
  intro t
  obtain ⟨hreach, hh⟩ := R.hosts hquiet hram t
  obtain ⟨k, hagrees⟩ := agrees_of_reachable hreach
  exact board_allowed (R.bramInvAt t) (fetchInv_of_reachable hreach.sys) hh hagrees (hram k)
    (R.running t) (hquiet t) _

end inRam

end BoardRun

end RiscvV2
