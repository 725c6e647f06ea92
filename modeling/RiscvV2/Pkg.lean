import Mathlib.Data.BitVec

/-!
# Shared constants (`riscv_pkg.sv`)

Opcodes, CSR addresses and trap causes are the bit patterns of the package. The ALU
operations, writeback selects and branch kinds only ever carry the package's values, so
they are enumerations.

The numbers are kept as they stand in the package because other parts of the repository use them
without the names: the assembler of the firmware writes opcodes as literals, programs read CSRs
by address, and a trap handler compares `mcause` with a number. Theorems about those parts then
speak about the same bit patterns as the core does. An enumeration has no such second reader. It
only travels from the decoder to the stage that acts on it, and a constructor for each value of
the package keeps case splits readable and rules out the encodings that the package leaves
unused.
-/

namespace RiscvV2

/-- A 32-bit datapath word. -/
abbrev Word := BitVec 32

/-! ## Opcodes (`instr[6:0]`)

The ten opcodes for which the decoder sets an output. `OPCODE_MISC_MEM` of the fences leaves all
of them at their defaults, so the model does not name it. -/

/-- `OPCODE_LUI`. -/
def opcodeLui : BitVec 7 := 0b0110111#7

/-- `OPCODE_AUIPC`. -/
def opcodeAuipc : BitVec 7 := 0b0010111#7

/-- `OPCODE_JAL`. -/
def opcodeJal : BitVec 7 := 0b1101111#7

/-- `OPCODE_JALR`. -/
def opcodeJalr : BitVec 7 := 0b1100111#7

/-- `OPCODE_BRANCH`. -/
def opcodeBranch : BitVec 7 := 0b1100011#7

/-- `OPCODE_LOAD`. -/
def opcodeLoad : BitVec 7 := 0b0000011#7

/-- `OPCODE_STORE`. -/
def opcodeStore : BitVec 7 := 0b0100011#7

/-- `OPCODE_OP_IMM`. -/
def opcodeOpImm : BitVec 7 := 0b0010011#7

/-- `OPCODE_OP`. -/
def opcodeOp : BitVec 7 := 0b0110011#7

/-- `OPCODE_SYSTEM`. -/
def opcodeSystem : BitVec 7 := 0b1110011#7

/-! ## Control enumerations -/

/-- The `ALU_*` operations. -/
inductive AluOp
  | add | sub | slt | sltu | xor | or | and | sll | srl | sra | copyB
  | mul | mulh | mulhsu | mulhu | div | divu | rem | remu
  deriving DecidableEq, Repr

/-- The `WB_*` writeback selects. -/
inductive WbSel
  | alu | load | pc4 | csr
  deriving DecidableEq, Repr

/-- The `BR_*` branch kinds. -/
inductive BranchKind
  | none | eq | ne | lt | ge | ltu | geu
  deriving DecidableEq, Repr

/-! ## Implemented CSR addresses

Eight standard machine-mode CSRs and two custom ones, `meimask` and `meipend`, which mask and
show the external interrupt inputs one by one. Every other address reads as zero and ignores
writes. -/

/-- `CSR_MSTATUS`. -/
def csrMstatus : BitVec 12 := 0x300#12

/-- `CSR_MIE`. -/
def csrMie : BitVec 12 := 0x304#12

/-- `CSR_MTVEC`. -/
def csrMtvec : BitVec 12 := 0x305#12

/-- `CSR_MSCRATCH`. -/
def csrMscratch : BitVec 12 := 0x340#12

/-- `CSR_MEPC`. -/
def csrMepc : BitVec 12 := 0x341#12

/-- `CSR_MCAUSE`. -/
def csrMcause : BitVec 12 := 0x342#12

/-- `CSR_MTVAL`. -/
def csrMtval : BitVec 12 := 0x343#12

/-- `CSR_MIP`. -/
def csrMip : BitVec 12 := 0x344#12

/-- `CSR_MEIMASK`. -/
def csrMeimask : BitVec 12 := 0x7c0#12

/-- `CSR_MEIPEND`. -/
def csrMeipend : BitVec 12 := 0xfc0#12

/-! ## Trap causes

The values that a trap leaves in `mcause`: six synchronous exceptions, and the machine external
interrupt with the top bit set. There is no instruction-address-misaligned cause, since the core
has no such exception. -/

/-- `EBREAK` -/
def causeBreakpoint : Word := 3#32
/-- A load from a misaligned address. -/
def causeLoadMisaligned : Word := 4#32
/-- A load from outside of the data memory. -/
def causeLoadAccess : Word := 5#32
/-- A store to a misaligned address. -/
def causeStoreMisaligned : Word := 6#32
/-- A store to outside of the data memory. -/
def causeStoreAccess : Word := 7#32
/-- `ECALL` -/
def causeEcallM : Word := 11#32
/-- An external interrupt. -/
def causeMachineExternalInterrupt : Word := 0x8000000b#32

/-! ## Machine interrupt CSR bits -/

/-- `MIE` in `mstatus` -/
def mstatusMieBit : ℕ := 3
/-- `MPIE` in `mstatus` -/
def mstatusMpieBit : ℕ := 7
/-- `MEIE` in `mie` -/
def mieMeieBit : ℕ := 11
/-- `MEIP` in `mip` -/
def mipMeipBit : ℕ := 11

end RiscvV2
