import RiscvV2.AxiControl
import RiscvV2.AxiMaster
import RiscvV2.DataPort

/-!
# The Zynq wrapper (`riscv_zynq_wrapper.sv`)

The core with its two block RAM ports, the control slave that holds it in reset, and the AXI
master for the peripherals. The wrapper infers `ready` of a block RAM from the address being
that of the cycle before, and sends the accesses of one region to the master.

Two facts about every reachable state are shared by the modules that follow: what the core
drives on its data port (`PortInv`), and that the master works for the access on that port
(`MasterServes`).

The core is reset by `aresetn` and by the control register alike, and the master with it; the
control slave by `aresetn` only. A cycle in reset is a step of the wrapper like any other: it
clears the core and the registers beside its two ports, and the invariants are proved across it.
What a reset in the middle of a transaction does to the bus is the subject of `SoftwareReset`.
-/

namespace RiscvV2

open Handshake

/-! ## The wrapper -/

/-- The parameters of `riscv_zynq_wrapper`. -/
structure WrapperConfig where
  addrWidth : ℕ := 10
  resetPc : Word := 0
  axiPeriphBase : Word := 0x10000000#32
  axiPeriphMask : Word := 0xf0000000#32
  numExtInterrupts : ℕ := 32
  /-- a block RAM is not larger than the address space -/
  addrWidth_le : addrWidth + 2 ≤ 32 := by decide

/-- The parameters of `core_inst`. -/
def coreConfig (w : WrapperConfig) : Config where
  resetPc := w.resetPc
  trapAccessFaults := false
  dmemBase := 0x00000000#32
  dmemLimit := 0x00001000#32
  numExtInterrupts := w.numExtInterrupts

/-- The registers of `riscv_zynq_wrapper`. The field defaults are the reset values. -/
structure Wrapper where
  /-- `core_inst` -/
  core : Core
  /-- `ctrl_inst` -/
  ctrl : Control 4 := {}
  /-- `dmem_axi_inst` -/
  master : Master := {}
  imemAddrQ : Word := 0
  imemReqQ : Bool := false
  dmemAddrQ : Word := 0
  dmemAccQ : Bool := false

/-- The inputs of `riscv_zynq_wrapper` in a cycle, other than unused ones. -/
structure WrapperIn (n : ℕ) where
  aresetn : Bool := true
  globalInterrupts : BitVec n := 0
  sAxiCtrlAwaddr : BitVec 4 := 0
  sAxiCtrlAwvalid : Bool := false
  sAxiCtrlWdata : Word := 0
  sAxiCtrlWstrb : BitVec 4 := 0
  sAxiCtrlWvalid : Bool := false
  sAxiCtrlBready : Bool := false
  sAxiCtrlAraddr : BitVec 4 := 0
  sAxiCtrlArvalid : Bool := false
  sAxiCtrlRready : Bool := false
  bramImemDout : Word := 0
  bramDmemDout : Word := 0
  mAxiPeriphAwready : Bool := false
  mAxiPeriphWready : Bool := false
  mAxiPeriphBvalid : Bool := false
  mAxiPeriphArready : Bool := false
  mAxiPeriphRvalid : Bool := false
  mAxiPeriphRdata : Word := 0

variable {n : ℕ} (w : WrapperConfig) (s : Wrapper) (i : WrapperIn n)

/-- `cpu_reset`. -/
def cpuReset : Bool := !i.aresetn || cpuResetExt s.ctrl

/-- `dmem_acc`. -/
def dmemAcc : Bool := dmemReadEn s.core.pipe || dmemWriteEn s.core.pipe

/-- The test of an address against the peripheral region. -/
def inAxiRegion (addr : Word) : Bool :=
  addr &&& w.axiPeriphMask == w.axiPeriphBase &&& w.axiPeriphMask

/-- `dmem_sel_axi`. -/
def dmemSelAxi : Bool := dmemAcc s && inAxiRegion w (dmemAddr s.core.pipe)

/-- `dmem_sel_bram`. -/
def dmemSelBram : Bool := dmemAcc s && !dmemSelAxi w s

/-- The inputs of `dmem_axi_inst`. -/
def masterIn : MasterIn where
  reset := cpuReset s i
  reqRead := dmemSelAxi w s && dmemReadEn s.core.pipe
  reqWrite := dmemSelAxi w s && dmemWriteEn s.core.pipe
  reqAddr := dmemAddr s.core.pipe
  reqWdata := dmemWriteData s.core.pipe
  reqWstrb := dmemWstrb s.core.pipe
  awready := i.mAxiPeriphAwready
  wready := i.mAxiPeriphWready
  bvalid := i.mAxiPeriphBvalid
  arready := i.mAxiPeriphArready
  rvalid := i.mAxiPeriphRvalid
  rdata := i.mAxiPeriphRdata

/-- The inputs of `ctrl_inst`. -/
def ctrlIn : ControlIn 4 where
  aresetn := i.aresetn
  awaddr := i.sAxiCtrlAwaddr
  awvalid := i.sAxiCtrlAwvalid
  wdata := i.sAxiCtrlWdata
  wstrb := i.sAxiCtrlWstrb
  wvalid := i.sAxiCtrlWvalid
  bready := i.sAxiCtrlBready
  araddr := i.sAxiCtrlAraddr
  arvalid := i.sAxiCtrlArvalid
  rready := i.sAxiCtrlRready
  cpuRunning := !cpuReset s i

/-- `imem_ready`. -/
def imemReady : Bool := s.imemReqQ && s.imemAddrQ == imemAddr s.core.fetch

/-- `bram_dmem_ready`. -/
def bramDmemReady : Bool := s.dmemAccQ && s.dmemAddrQ == dmemAddr s.core.pipe

/-- `dmem_ready`. -/
def dmemReady : Bool :=
  if dmemSelAxi w s then reqReady s.master (masterIn w s i) else bramDmemReady s

/-- `dmem_read_data`. -/
def dmemReadData : Word :=
  if dmemSelAxi w s then reqRdata (masterIn w s i) else i.bramDmemDout

/-- The inputs of `core_inst`. -/
def coreIn : CoreIn n where
  reset := cpuReset s i
  globalInterrupts := i.globalInterrupts
  imemReady := imemReady s
  imemInstr := i.bramImemDout
  imemRespPc := s.imemAddrQ
  dmemReady := dmemReady w s i
  dmemReadData := dmemReadData w s i

/-- The word of a block RAM that an address selects. -/
def bramIndex (addr : Word) : BitVec w.addrWidth := addr.extractLsb' 2 w.addrWidth

/-- `bram_imem_byte_addr` and `bram_dmem_byte_addr`. -/
def bramByteAddr (addr : Word) : Word := (bramIndex w addr).setWidth 30 ++ 0#2

/-- `bram_dmem_we`. -/
def bramDmemWe : BitVec 4 :=
  if dmemSelBram w s && dmemWriteEn s.core.pipe then dmemWstrb s.core.pipe else 0#4

/-- `riscv_zynq_wrapper` after a clock edge. -/
def wrapperNext : Wrapper where
  core := coreNext (coreConfig w) s.core (coreIn w s i)
  ctrl := controlNext s.ctrl (ctrlIn s i)
  master := masterNext s.master (masterIn w s i)
  imemAddrQ := if cpuReset s i then 0 else imemAddr s.core.fetch
  imemReqQ := if cpuReset s i then false else imemReq (coreConfig w) s.core (coreIn w s i)
  dmemAddrQ := if cpuReset s i then 0 else dmemAddr s.core.pipe
  dmemAccQ := if cpuReset s i then false else dmemSelBram w s

/-- The wrapper out of `aresetn`: the control register holds the core in reset. -/
def wrapperReset : Wrapper := { core := coreReset (coreConfig w) }

/-- `riscv_zynq_wrapper` under arbitrary inputs. -/
def wrapperSystem : Clocked Wrapper (WrapperIn w.numExtInterrupts) where
  init s := s = wrapperReset w
  allowed _ _ := True
  next := wrapperNext w

variable {w s i}

/-! ## The data port of the core

All signals of the port, the routing included, are functions of the MEM stage. So an access that
waits is the same access in the next cycle, with the same route. -/

theorem dmemAcc_eq :
    dmemAcc s = (s.core.pipe.exMem.valid &&
      (s.core.pipe.exMem.memRead || s.core.pipe.exMem.memWrite)) :=
  dmemEn_eq s.core.pipe

theorem dmemAcc_of_selAxi (h : dmemSelAxi w s = true) : dmemAcc s = true :=
  (Bool.and_eq_true_iff.mp h).1

/-- The port shows what MEM holds. -/
theorem port_congr {s' : Wrapper} (h : s'.core.pipe.exMem = s.core.pipe.exMem) :
    dmemReadEn s'.core.pipe = dmemReadEn s.core.pipe ∧
      dmemWriteEn s'.core.pipe = dmemWriteEn s.core.pipe ∧
      dmemAddr s'.core.pipe = dmemAddr s.core.pipe ∧
      dmemWriteData s'.core.pipe = dmemWriteData s.core.pipe ∧
      dmemWstrb s'.core.pipe = dmemWstrb s.core.pipe := by
  have hwrite : dmemWriteEn s'.core.pipe = dmemWriteEn s.core.pipe := by
    rw [dmemWriteEn, dmemWriteEn, h]
  refine ⟨?_, hwrite, ?_, ?_, ?_⟩
  · rw [dmemReadEn, dmemReadEn, h]
  · rw [dmemAddr, dmemAddr, h]
  · rw [dmemWriteData, dmemWriteData, hwrite, h]
  · rw [dmemWstrb, dmemWstrb, hwrite, h]

/-- The routing of an access is a function of MEM. -/
theorem dmemSel_congr {s' : Wrapper} (h : s'.core.pipe.exMem = s.core.pipe.exMem) :
    dmemAcc s' = dmemAcc s ∧ dmemSelAxi w s' = dmemSelAxi w s := by
  obtain ⟨hread, hwrite, haddr, -⟩ := port_congr h
  have hacc : dmemAcc s' = dmemAcc s := by rw [dmemAcc, dmemAcc, hread, hwrite]
  exact ⟨hacc, by rw [dmemSelAxi, dmemSelAxi, hacc, haddr]⟩

/-- The pipeline is staged, and the access on the data port has passed the checks of EX. -/
structure PortInv (w : WrapperConfig) (s : Wrapper) : Prop where
  staged : CoreStaged s.core
  safe : (portAccess s.core.pipe).isSome = true → DataSafe (coreConfig w) s.core.pipe.exMem

theorem portInv_reset (w : WrapperConfig) : PortInv w (wrapperReset w) where
  staged := coreStaged_reset _
  safe h := by cases h

theorem wrapperNext_core : (wrapperNext w s i).core =
    coreNext (coreConfig w) s.core (coreIn w s i) := rfl

/-- In reset the core is cleared. -/
theorem core_of_cpuReset (h : cpuReset s i = true) :
    (wrapperNext w s i).core = coreReset (coreConfig w) := by
  rw [wrapperNext_core, coreNext_of_reset h]

theorem pipe_of_running (h : cpuReset s i = false) :
    (wrapperNext w s i).core.pipe =
      pipeNext (coreConfig w) s.core.pipe (pipeIn (coreConfig w) s.core (coreIn w s i)) := by
  rw [wrapperNext_core, coreNext_pipe h]

/-- **Step lemma**: every cycle keeps the facts about the port, in reset or not. -/
theorem wrapperNext_portInv (h : PortInv w s) : PortInv w (wrapperNext w s i) := by
  have hstaged : CoreStaged (wrapperNext w s i).core := coreNext_staged h.staged
  refine ⟨hstaged, fun hp => ?_⟩
  cases hreset : cpuReset s i with
  | true =>
    rw [core_of_cpuReset hreset] at hp
    cases hp
  | false =>
    rw [pipe_of_running hreset] at hp ⊢
    exact pipeNext_dataSafe h.staged.pipe h.safe hp

/-- The core never reads and writes at once. -/
theorem PortInv.not_both (h : PortInv w s) (hw : dmemWriteEn s.core.pipe = true) :
    dmemReadEn s.core.pipe = false := by
  by_contra hr
  have hr' : dmemReadEn s.core.pipe = true := Bool.eq_true_of_not_eq_false hr
  have hsafe := h.safe (by rw [portAccess, if_pos (by rw [hr', Bool.true_or])]; rfl)
  rw [dmemReadEn, Bool.and_eq_true] at hr'
  rw [dmemWriteEn, hsafe.load_not_store hr'.2, Bool.and_false] at hw
  cases hw

/-- An access that is not completed stays on the port. -/
theorem PortInv.wait (h : PortInv w s) (hreset : cpuReset s i = false)
    (hacc : dmemAcc s = true) (hr : dmemReady w s i = false) :
    (wrapperNext w s i).core.pipe.exMem = s.core.pipe.exMem :=
  port_stable (i := coreIn w s i) h.staged hreset hacc hr

/-- After an access is completed MEM is empty for a cycle. -/
theorem PortInv.done (h : PortInv w s) (hreset : cpuReset s i = false)
    (hacc : dmemAcc s = true) (hr : dmemReady w s i = true) :
    (wrapperNext w s i).core.pipe.exMem.valid = false := by
  have hMem : s.core.pipe.exMem.valid = true := by
    rw [dmemAcc_eq, Bool.and_eq_true] at hacc
    exact hacc.1
  have hEx : s.core.pipe.idEx.valid = false := by
    by_contra hEx
    rw [h.staged.pipe.idEx_exMem (Bool.eq_true_of_not_eq_false hEx)] at hMem
    cases hMem
  have hs : memStall s.core.pipe (dmemReady w s i) = false := by
    rw [hr, memStall, Bool.not_true, Bool.and_false]
  rw [pipe_of_running hreset, pipeNext_flow h.staged.pipe hEx hs]

/-! ## The master and the port

The wrapper hands the access on the port to the master as its request, without a register in
between. With the port held as `PortInv` says, the core is a requester as the master needs it,
and the progress of the master is progress for that one access. -/

/-- The request the wrapper makes of the master. -/
def portRequest (w : WrapperConfig) (s : Wrapper) : Option MasterRequest :=
  if dmemSelAxi w s then
    if dmemWriteEn s.core.pipe then
      some (.write (dmemAddr s.core.pipe) (dmemWriteData s.core.pipe) (dmemWstrb s.core.pipe))
    else some (.read (dmemAddr s.core.pipe))
  else none

theorem masterRequest_eq : masterRequest (masterIn w s i) = portRequest w s := by
  cases hsel : dmemSelAxi w s with
  | false => simp [masterRequest, masterIn, portRequest, hsel]
  | true =>
    have hacc := dmemAcc_of_selAxi hsel
    cases hw : dmemWriteEn s.core.pipe with
    | true => simp [masterRequest, masterIn, portRequest, hsel, hw]
    | false =>
      have hr : dmemReadEn s.core.pipe = true := by
        rw [dmemAcc, hw, Bool.or_false] at hacc
        exact hacc
      simp [masterRequest, masterIn, portRequest, hsel, hw, hr]

theorem portRequest_isSome : (portRequest w s).isSome = dmemSelAxi w s := by
  cases hsel : dmemSelAxi w s with
  | false => simp [portRequest, hsel]
  | true => cases hw : dmemWriteEn s.core.pipe <;> simp [portRequest, hsel, hw]

/-- The request is for the access on the port. -/
theorem portRequest_eq_some {q : MasterRequest} (h : portRequest w s = some q) :
    dmemSelAxi w s = true ∧ q.addr = dmemAddr s.core.pipe := by
  rw [portRequest, Option.ite_none_right_eq_some] at h
  obtain ⟨hsel, h⟩ := h
  refine ⟨hsel, ?_⟩
  split_ifs at h <;> obtain rfl := Option.some.inj h <;> rfl

/-- The request is a function of MEM. -/
theorem portRequest_congr {s' : Wrapper} (h : s'.core.pipe.exMem = s.core.pipe.exMem) :
    portRequest w s' = portRequest w s := by
  obtain ⟨-, hwrite, haddr, hdata, hstrb⟩ := port_congr h
  obtain ⟨-, hsel⟩ := dmemSel_congr (w := w) h
  rw [portRequest, portRequest, hsel, hwrite, haddr, hdata, hstrb]

/-- The master works for the access on the port; `cur` are the transfers it has made for it. -/
def MasterServes (w : WrapperConfig) (s : Wrapper) (cur : List BusEvent) : Prop :=
  ∃ held, MasterProgress s.master held cur ∧ (held = none ∨ held = portRequest w s)

/-- A master that offers something offers it for the access on the port. -/
theorem MasterServes.offers {cur : List BusEvent} (h : MasterServes w s cur)
    (hv : (masterAwvalid s.master || masterWvalid s.master || masterArvalid s.master) = true) :
    dmemSelAxi w s = true ∧ s.master.activeAddr = alignedWordAddr (dmemAddr s.core.pipe) := by
  obtain ⟨held, hp, hport⟩ := h
  obtain ⟨q, hq, haddr⟩ := hp.offers hv
  obtain hnone | hsome := hport
  · rw [hnone] at hq
    cases hq
  · obtain ⟨hsel, hqaddr⟩ := portRequest_eq_some (hsome.symm.trans hq)
    exact ⟨hsel, by rw [haddr, hqaddr]⟩

/-- The transfers of a cycle on the peripheral bus. -/
def periphEvents (w : WrapperConfig) (s : Wrapper) (i : WrapperIn n) : List BusEvent :=
  busEvents s.master (masterIn w s i)

/-- What a cycle outside reset does to the transaction of the access on the port. -/
inductive ServeCycle (w : WrapperConfig) (s : Wrapper) (i : WrapperIn n)
    (cur : List BusEvent) : Prop
  | continues (hr : reqReady s.master (masterIn w s i) = false)
    (h : MasterServes w (wrapperNext w s i) (cur ++ periphEvents w s i))
  | answers {q : MasterRequest} (hr : reqReady s.master (masterIn w s i) = true)
    (hq : portRequest w s = some q)
    (htx : Transaction q i.mAxiPeriphRdata (cur ++ periphEvents w s i))
    (h : MasterServes w (wrapperNext w s i) [])

/-- The core is a requester that holds its requests. -/
theorem serveCycle (h : PortInv w s) (hreset : cpuReset s i = false) {cur : List BusEvent}
    (hserve : MasterServes w s cur) : ServeCycle w s i cur := by
  obtain ⟨held, hp, hport⟩ := hserve
  have hok : requesterAllowed { held := held } s.master (masterIn w s i) := by
    refine ⟨hreset, ?_, fun q hq => ?_⟩
    · rintro ⟨hread, hwrite⟩
      rw [masterIn, Bool.and_eq_true] at hread hwrite
      rw [h.not_both hwrite.2] at hread
      cases hread.2
    · obtain hnone | hsome := hport
      · rw [hnone] at hq
        cases hq
      · rw [masterRequest_eq, ← hsome]
        exact hq
  cases masterCycle hok hp with
  | continues hr hnext =>
    refine .continues hr ⟨_, hnext, ?_⟩
    rw [masterRequest_eq]
    cases hsel : dmemSelAxi w s with
    | false =>
      left
      rw [portRequest, if_neg (by simp [hsel])]
    | true =>
      right
      -- an unanswered access stays on the port, so the request stays the same
      have hready : dmemReady w s i = false := by rw [dmemReady, if_pos hsel, hr]
      exact (portRequest_congr (h.wait hreset (dmemAcc_of_selAxi hsel) hready)).symm
  | answers hr hq htx hidle =>
    rw [masterRequest_eq] at hq
    exact .answers hr hq htx ⟨none, .idle hidle, .inl rfl⟩

/-- In reset the master goes idle, whatever it was doing. -/
theorem masterServes_of_cpuReset (h : cpuReset s i = true) :
    MasterServes w (wrapperNext w s i) [] := by
  refine ⟨none, .idle ?_, .inl rfl⟩
  have hm : (wrapperNext w s i).master = masterNext s.master (masterIn w s i) := rfl
  have hr : (masterIn w s i).reset = true := h
  rw [hm, masterNext, if_pos hr]

/-- What holds of the port and the master in every reachable state. -/
structure WrapperInv (w : WrapperConfig) (s : Wrapper) : Prop where
  port : PortInv w s
  serves : ∃ cur, MasterServes w s cur

/-- **Step lemma** for both. -/
theorem wrapperNext_inv (h : WrapperInv w s) : WrapperInv w (wrapperNext w s i) := by
  refine ⟨wrapperNext_portInv h.port, ?_⟩
  cases hreset : cpuReset s i with
  | true => exact ⟨[], masterServes_of_cpuReset hreset⟩
  | false =>
    obtain ⟨cur, hserve⟩ := h.serves
    cases serveCycle h.port hreset hserve with
    | continues _ h => exact ⟨_, h⟩
    | answers _ _ _ h => exact ⟨_, h⟩

theorem wrapperInv_of_reachable (hs : (wrapperSystem w).Reachable s) : WrapperInv w s := by
  refine hs.invariant (I := WrapperInv w) ?_ fun _ _ _ _ h => wrapperNext_inv h
  rintro s rfl
  exact ⟨portInv_reset w, [], none, .idle rfl, .inl rfl⟩

end RiscvV2
