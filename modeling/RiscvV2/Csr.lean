import RiscvV2.Pkg

/-!
# Machine-mode CSR file (`riscv_csr.sv`)

`mstatus` is stored as its implemented fields. A clock edge samples the interrupt inputs,
then applies a CSR instruction's write, then a trap capture or an MRET; the later
assignments win, and all of them read the registers as they were before the edge.

The three events are separate functions on the register file, and `csrNext` composes them in the
order of the assignments in the source. This is more than a matter of taste. A CSR instruction
in EX and an interrupt can meet in one cycle, and then which assignment comes last decides what
survives: the trap capture overwrites `mstatus`, `mepc`, `mcause` and `mtval`, and leaves a
write to any other register standing.

Reads are combinational and happen in ID, one stage before the write of the same instruction.
The value read is captured and carried along; that it is still current when the instruction is
in EX is an invariant of the pipeline and not of this block.
-/

namespace RiscvV2

/-- The CSR registers. -/
structure Csr where
  mtvec : Word := 0
  mie : Word := 0
  mscratch : Word := 0
  mepc : Word := 0
  mcause : Word := 0
  mtval : Word := 0
  meimask : Word := 0
  meipend : Word := 0
  /-- mstatus bit 3 -/
  mstatusMie : Bool := false
  /-- mstatus bit 7 -/
  mstatusMpie : Bool := false
  /-- mstatus bits 12:11 -/
  mstatusMpp : BitVec 2 := 0
  deriving DecidableEq, Repr

/-- The CSRs out of reset. -/
def Csr.zero : Csr := {}

/-- The inputs of the CSR file's clocked process; `n` is `NUM_EXT_INTERRUPTS`. -/
structure CsrIn (n : ℕ) where
  globalInterrupts : BitVec n
  we : Bool
  waddr : BitVec 12
  wdata : Word
  trapEn : Bool
  trapEpc : Word
  trapCause : Word
  trapTval : Word
  mretEn : Bool

/-- `mstatus_rd`. -/
def Csr.mstatusRd (s : Csr) : Word :=
  0#19 ++ s.mstatusMpp ++ 0#3 ++ BitVec.ofBool s.mstatusMpie ++ 0#3 ++
    BitVec.ofBool s.mstatusMie ++ 0#3

/-- `ext_irq_mask`. -/
def extIrqMask (n : ℕ) : Word :=
  if n ≥ 32 then 0xffffffff#32 else (1#32 <<< n) - 1#32

/-- `external_irq_active`. -/
def Csr.externalIrqActive (s : Csr) : Bool :=
  s.mstatusMie && (s.meimask &&& s.meipend) != 0#32

/-- The combinational read port. -/
def Csr.read (s : Csr) (raddr : BitVec 12) : Word :=
  if raddr = csrMstatus then s.mstatusRd
  else if raddr = csrMie then s.mie
  else if raddr = csrMtvec then s.mtvec
  else if raddr = csrMscratch then s.mscratch
  else if raddr = csrMepc then s.mepc
  else if raddr = csrMcause then s.mcause
  else if raddr = csrMtval then s.mtval
  else if raddr = csrMip then (if s.meipend != 0#32 then 1#32 <<< mipMeipBit else 0#32)
  else if raddr = csrMeimask then s.meimask
  else if raddr = csrMeipend then s.meipend
  else 0#32

/-- The write of a CSR instruction. `mip`, `meipend` and unimplemented addresses ignore it. -/
def Csr.write (n : ℕ) (s : Csr) (waddr : BitVec 12) (wdata : Word) : Csr :=
  if waddr = csrMstatus then
    { s with mstatusMie := wdata.getLsbD mstatusMieBit
             mstatusMpie := wdata.getLsbD mstatusMpieBit
             mstatusMpp := wdata.extractLsb' 11 2 }
  else if waddr = csrMie then { s with mie := wdata &&& (1#32 <<< mieMeieBit) }
  else if waddr = csrMtvec then { s with mtvec := wdata }
  else if waddr = csrMscratch then { s with mscratch := wdata }
  else if waddr = csrMepc then { s with mepc := wdata &&& 0xfffffffc#32 }
  else if waddr = csrMcause then { s with mcause := wdata }
  else if waddr = csrMtval then { s with mtval := wdata }
  else if waddr = csrMeimask then { s with meimask := wdata &&& extIrqMask n }
  else s

/-- Trap capture, with `MIE` as it was before the edge. -/
def Csr.trap (s : Csr) (mie : Bool) (epc cause tval : Word) : Csr :=
  { s with mepc := epc, mcause := cause, mtval := tval,
           mstatusMpie := mie, mstatusMie := false, mstatusMpp := 0b11#2 }

/-- MRET commit, with `MPIE` as it was before the edge. -/
def Csr.mret (s : Csr) (mpie : Bool) : Csr :=
  { s with mstatusMie := mpie, mstatusMpie := false, mstatusMpp := 0b00#2 }

/-- The pending bits follow the interrupt inputs in every cycle. -/
def Csr.sample {n : ℕ} (s : Csr) (globalInterrupts : BitVec n) : Csr :=
  { s with meipend := globalInterrupts.setWidth 32 }

/-- The CSRs after a clock edge without reset. -/
def csrNext {n : ℕ} (s : Csr) (i : CsrIn n) : Csr :=
  let sampled := s.sample i.globalInterrupts
  let written := if i.we then sampled.write n i.waddr i.wdata else sampled
  -- the saved bits are those before the edge, also when the write changes them
  if i.trapEn then written.trap s.mstatusMie i.trapEpc i.trapCause i.trapTval
  else if i.mretEn then written.mret s.mstatusMpie
  else written

/-- Without a write, a trap or an MRET the edge only samples the interrupt inputs. -/
theorem csrNext_idle {n : ℕ} {s : Csr} {i : CsrIn n} (hw : i.we = false)
    (ht : i.trapEn = false) (hm : i.mretEn = false) :
    csrNext s i = s.sample i.globalInterrupts := by
  simp [csrNext, hw, ht, hm]

/-- Sampling is visible through `mip` and `meipend` only. -/
theorem Csr.read_sample {n : ℕ} {s : Csr} {g : BitVec n} {addr : BitVec 12}
    (hip : addr ≠ csrMip) (hpend : addr ≠ csrMeipend) :
    (s.sample g).read addr = s.read addr := by
  simp [Csr.read, Csr.sample, Csr.mstatusRd, hip, hpend]

/-! ## Fields of the CSR file after a write

One equation for each register: it has the masked value if its address was written, and its old
value otherwise. -/

section write

variable {n : ℕ} (s : Csr) (addr : BitVec 12) (v : Word)

/-- **A write register by register**: each implemented address changes its own register. -/
theorem Csr.write_eq :
    s.write n addr v =
      { s with
        mtvec := if addr = csrMtvec then v else s.mtvec
        mie := if addr = csrMie then v &&& (1#32 <<< mieMeieBit) else s.mie
        mscratch := if addr = csrMscratch then v else s.mscratch
        mepc := if addr = csrMepc then v &&& 0xfffffffc#32 else s.mepc
        mcause := if addr = csrMcause then v else s.mcause
        mtval := if addr = csrMtval then v else s.mtval
        meimask := if addr = csrMeimask then v &&& extIrqMask n else s.meimask
        mstatusMie := if addr = csrMstatus then v.getLsbD mstatusMieBit else s.mstatusMie
        mstatusMpie := if addr = csrMstatus then v.getLsbD mstatusMpieBit else s.mstatusMpie
        mstatusMpp := if addr = csrMstatus then v.extractLsb' 11 2 else s.mstatusMpp } := by
  by_cases hstatus : addr = csrMstatus
  · subst hstatus
    rfl
  by_cases hie : addr = csrMie
  · subst hie
    rfl
  by_cases htvec : addr = csrMtvec
  · subst htvec
    rfl
  by_cases hscratch : addr = csrMscratch
  · subst hscratch
    rfl
  by_cases hepc : addr = csrMepc
  · subst hepc
    rfl
  by_cases hcause : addr = csrMcause
  · subst hcause
    rfl
  by_cases htval : addr = csrMtval
  · subst htval
    rfl
  by_cases hmask : addr = csrMeimask
  · subst hmask
    rfl
  simp only [Csr.write, *, if_false]

theorem Csr.write_mie :
    (s.write n addr v).mie = if addr = csrMie then v &&& (1#32 <<< mieMeieBit) else s.mie :=
  congrArg Csr.mie (s.write_eq addr v)

theorem Csr.write_mtvec :
    (s.write n addr v).mtvec = if addr = csrMtvec then v else s.mtvec :=
  congrArg Csr.mtvec (s.write_eq addr v)

theorem Csr.write_mscratch :
    (s.write n addr v).mscratch = if addr = csrMscratch then v else s.mscratch :=
  congrArg Csr.mscratch (s.write_eq addr v)

theorem Csr.write_meimask :
    (s.write n addr v).meimask =
      if addr = csrMeimask then v &&& extIrqMask n else s.meimask :=
  congrArg Csr.meimask (s.write_eq addr v)

theorem Csr.write_mepc :
    (s.write n addr v).mepc = if addr = csrMepc then v &&& 0xfffffffc#32 else s.mepc :=
  congrArg Csr.mepc (s.write_eq addr v)

theorem Csr.write_mstatusMie :
    (s.write n addr v).mstatusMie =
      if addr = csrMstatus then v.getLsbD mstatusMieBit else s.mstatusMie :=
  congrArg Csr.mstatusMie (s.write_eq addr v)

theorem Csr.write_mstatusMpie :
    (s.write n addr v).mstatusMpie =
      if addr = csrMstatus then v.getLsbD mstatusMpieBit else s.mstatusMpie :=
  congrArg Csr.mstatusMpie (s.write_eq addr v)

theorem Csr.write_meipend : (s.write n addr v).meipend = s.meipend := by
  rw [Csr.write_eq]

end write

/-- With no interrupt pending and none requested, sampling changes nothing. -/
theorem Csr.sample_quiet {n : ℕ} {s : Csr} (h : s.meipend = 0#32) : s.sample (0#n) = s := by
  cases s
  simp only at h
  subst h
  simp [Csr.sample]

end RiscvV2
