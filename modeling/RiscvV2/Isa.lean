import Mathlib.Data.BitVec

/-!
# RV32I and Zicsr

The instruction set as its manual gives it, apart from any machine that executes it: the
syntax of the computational, control-transfer, memory and CSR instructions, their encoding
in the six formats, what one instruction does to its operands, and the byte-addressed
little-endian memory that loads and stores act on. System instructions without a CSR, fences
and the other extensions are left out.

It is the yardstick for the decoder and the EX stage, so it is written without looking at them.
An instruction is a constructor with its operands, encoding goes from the constructor to the
word, and there is no decoder: that a word means an instruction is said by giving the
instruction that encodes to it. Semantics are stated on integers and natural numbers where the
manual does so, for comparisons, shifts and alignment, and on bit vectors where it speaks of
bits.
-/

namespace Rv32

/-- A register number. -/
abbrev Reg := BitVec 5

/-! ## Syntax -/

/-- Branch conditions. -/
inductive Cond
  | beq | bne | blt | bge | bltu | bgeu
  deriving DecidableEq, Repr

/-- Access widths. -/
inductive Width
  | byte | half | word
  deriving DecidableEq, Repr

/-- Loads. -/
inductive LoadOp
  | lb | lh | lw | lbu | lhu
  deriving DecidableEq, Repr

/-- The operations with a register form and a 12-bit immediate form. -/
inductive ArithOp
  | add | slt | sltu | xor | or | and
  deriving DecidableEq, Repr

/-- Shifts, with a register form and a 5-bit immediate form. -/
inductive ShiftOp
  | sll | srl | sra
  deriving DecidableEq, Repr

/-- The CSR operations: read and write, read and set, read and clear. -/
inductive CsrOp
  | rw | rs | rc
  deriving DecidableEq, Repr

/-- Instructions. Branch and jump offsets count half-words, as their low bit is never
encoded; the immediate of `lui` and `auipc` is the upper part of the word. -/
inductive Instr
  | lui (rd : Reg) (imm : BitVec 20)
  | auipc (rd : Reg) (imm : BitVec 20)
  | jal (rd : Reg) (offset : BitVec 20)
  | jalr (rd rs1 : Reg) (offset : BitVec 12)
  | branch (cond : Cond) (rs1 rs2 : Reg) (offset : BitVec 12)
  | load (op : LoadOp) (rd rs1 : Reg) (offset : BitVec 12)
  | store (width : Width) (rs1 rs2 : Reg) (offset : BitVec 12)
  | arithImm (op : ArithOp) (rd rs1 : Reg) (imm : BitVec 12)
  | shiftImm (op : ShiftOp) (rd rs1 : Reg) (shamt : BitVec 5)
  | arith (op : ArithOp) (rd rs1 rs2 : Reg)
  | sub (rd rs1 rs2 : Reg)
  | shift (op : ShiftOp) (rd rs1 rs2 : Reg)
  | csr (op : CsrOp) (rd rs1 : Reg) (addr : BitVec 12)
  | csrImm (op : CsrOp) (rd : Reg) (uimm : BitVec 5) (addr : BitVec 12)
  deriving DecidableEq, Repr

/-! ## Encoding

The formats are concatenations of fields from the top bit down, in the order of the tables of
the manual. Offsets appear with their bits scrambled as the formats have them. -/

/-- `funct7 rs2 rs1 funct3 rd` -/
def rType (funct7 : BitVec 7) (rs2 rs1 : Reg) (funct3 : BitVec 3) (rd : Reg)
    (opcode : BitVec 7) : BitVec 32 :=
  funct7 ++ rs2 ++ rs1 ++ funct3 ++ rd ++ opcode

/-- `imm[11:0] rs1 funct3 rd` -/
def iType (imm : BitVec 12) (rs1 : Reg) (funct3 : BitVec 3) (rd : Reg)
    (opcode : BitVec 7) : BitVec 32 :=
  imm ++ rs1 ++ funct3 ++ rd ++ opcode

/-- `imm[11:5] rs2 rs1 funct3 imm[4:0]` -/
def sType (imm : BitVec 12) (rs2 rs1 : Reg) (funct3 : BitVec 3) (opcode : BitVec 7) :
    BitVec 32 :=
  imm.extractLsb' 5 7 ++ rs2 ++ rs1 ++ funct3 ++ imm.extractLsb' 0 5 ++ opcode

/-- `imm[12|10:5] rs2 rs1 funct3 imm[4:1|11]`; bit `k` of the offset is `imm[k + 1]`. -/
def bType (offset : BitVec 12) (rs2 rs1 : Reg) (funct3 : BitVec 3) (opcode : BitVec 7) :
    BitVec 32 :=
  offset.extractLsb' 11 1 ++ offset.extractLsb' 4 6 ++ rs2 ++ rs1 ++ funct3 ++
    offset.extractLsb' 0 4 ++ offset.extractLsb' 10 1 ++ opcode

/-- `imm[31:12] rd` -/
def uType (imm : BitVec 20) (rd : Reg) (opcode : BitVec 7) : BitVec 32 :=
  imm ++ rd ++ opcode

/-- `imm[20|10:1|11|19:12] rd`; bit `k` of the offset is `imm[k + 1]`. -/
def jType (offset : BitVec 20) (rd : Reg) (opcode : BitVec 7) : BitVec 32 :=
  offset.extractLsb' 19 1 ++ offset.extractLsb' 0 10 ++ offset.extractLsb' 10 1 ++
    offset.extractLsb' 11 8 ++ rd ++ opcode

/-- `funct3` of the branch. -/
def Cond.funct3 : Cond → BitVec 3
  | .beq => 0b000#3
  | .bne => 0b001#3
  | .blt => 0b100#3
  | .bge => 0b101#3
  | .bltu => 0b110#3
  | .bgeu => 0b111#3

/-- `funct3` of the load. -/
def LoadOp.funct3 : LoadOp → BitVec 3
  | .lb => 0b000#3
  | .lh => 0b001#3
  | .lw => 0b010#3
  | .lbu => 0b100#3
  | .lhu => 0b101#3

/-- `funct3` of the store of this width. -/
def Width.funct3 : Width → BitVec 3
  | .byte => 0b000#3
  | .half => 0b001#3
  | .word => 0b010#3

/-- `funct3` of both forms. -/
def ArithOp.funct3 : ArithOp → BitVec 3
  | .add => 0b000#3
  | .slt => 0b010#3
  | .sltu => 0b011#3
  | .xor => 0b100#3
  | .or => 0b110#3
  | .and => 0b111#3

/-- `funct3` of both forms. -/
def ShiftOp.funct3 : ShiftOp → BitVec 3
  | .sll => 0b001#3
  | .srl | .sra => 0b101#3

/-- `funct7` of both forms; it tells the right shifts apart. -/
def ShiftOp.funct7 : ShiftOp → BitVec 7
  | .sll | .srl => 0b0000000#7
  | .sra => 0b0100000#7

/-- `funct3` of the register form. -/
def CsrOp.funct3 : CsrOp → BitVec 3
  | .rw => 0b001#3
  | .rs => 0b010#3
  | .rc => 0b011#3

/-- `funct3` of the immediate form. -/
def CsrOp.immFunct3 : CsrOp → BitVec 3
  | .rw => 0b101#3
  | .rs => 0b110#3
  | .rc => 0b111#3

/-- The instruction word. -/
def Instr.encode : Instr → BitVec 32
  | .lui rd imm => uType imm rd 0b0110111#7
  | .auipc rd imm => uType imm rd 0b0010111#7
  | .jal rd offset => jType offset rd 0b1101111#7
  | .jalr rd rs1 offset => iType offset rs1 0b000#3 rd 0b1100111#7
  | .branch cond rs1 rs2 offset => bType offset rs2 rs1 cond.funct3 0b1100011#7
  | .load op rd rs1 offset => iType offset rs1 op.funct3 rd 0b0000011#7
  | .store width rs1 rs2 offset => sType offset rs2 rs1 width.funct3 0b0100011#7
  | .arithImm op rd rs1 imm => iType imm rs1 op.funct3 rd 0b0010011#7
  | .shiftImm op rd rs1 shamt => rType op.funct7 shamt rs1 op.funct3 rd 0b0010011#7
  | .arith op rd rs1 rs2 => rType 0b0000000#7 rs2 rs1 op.funct3 rd 0b0110011#7
  | .sub rd rs1 rs2 => rType 0b0100000#7 rs2 rs1 0b000#3 rd 0b0110011#7
  | .shift op rd rs1 rs2 => rType op.funct7 rs2 rs1 op.funct3 rd 0b0110011#7
  | .csr op rd rs1 addr => iType addr rs1 op.funct3 rd 0b1110011#7
  | .csrImm op rd uimm addr => iType addr uimm op.immFunct3 rd 0b1110011#7

/-! ## Operands -/

/-- The register an instruction reads as `rs1`. -/
def Instr.rs1 : Instr → Option Reg
  | .lui .. | .auipc .. | .jal .. | .csrImm .. => none
  | .jalr _ rs1 _ | .branch _ rs1 _ _ | .load _ _ rs1 _ | .store _ rs1 _ _
  | .arithImm _ _ rs1 _ | .shiftImm _ _ rs1 _ | .arith _ _ rs1 _ | .sub _ rs1 _
  | .shift _ _ rs1 _ | .csr _ _ rs1 _ => some rs1

/-- The register an instruction reads as `rs2`. -/
def Instr.rs2 : Instr → Option Reg
  | .branch _ _ rs2 _ | .store _ _ rs2 _ | .arith _ _ _ rs2 | .sub _ _ rs2
  | .shift _ _ _ rs2 => some rs2
  | _ => none

/-! ## Semantics

What one instruction makes of its operands is an `Outcome`: the register result, the memory
access, the next pc and the CSR write. Registers and memory themselves are left to whoever runs
the instruction, so a loaded value is named and not yet read. -/

/-- The branch is taken. -/
def Cond.holds (a b : BitVec 32) : Cond → Prop
  | .beq => a = b
  | .bne => a ≠ b
  | .blt => a.toInt < b.toInt
  | .bge => b.toInt ≤ a.toInt
  | .bltu => a.toNat < b.toNat
  | .bgeu => b.toNat ≤ a.toNat

instance (a b : BitVec 32) : ∀ cond : Cond, Decidable (cond.holds a b)
  | .beq => inferInstanceAs (Decidable (a = b))
  | .bne => inferInstanceAs (Decidable (a ≠ b))
  | .blt => inferInstanceAs (Decidable (a.toInt < b.toInt))
  | .bge => inferInstanceAs (Decidable (b.toInt ≤ a.toInt))
  | .bltu => inferInstanceAs (Decidable (a.toNat < b.toNat))
  | .bgeu => inferInstanceAs (Decidable (b.toNat ≤ a.toNat))

/-- The result of the operation. -/
def ArithOp.eval (a b : BitVec 32) : ArithOp → BitVec 32
  | .add => a + b
  | .slt => if a.toInt < b.toInt then 1#32 else 0#32
  | .sltu => if a.toNat < b.toNat then 1#32 else 0#32
  | .xor => a ^^^ b
  | .or => a ||| b
  | .and => a &&& b

/-- Shift by `k` places. -/
def ShiftOp.eval (a : BitVec 32) (k : ℕ) : ShiftOp → BitVec 32
  | .sll => a <<< k
  | .srl => a >>> k
  | .sra => a.sshiftRight k

/-- The width of the access. -/
def LoadOp.width : LoadOp → Width
  | .lb | .lbu => .byte
  | .lh | .lhu => .half
  | .lw => .word

/-- The loaded field is zero-extended. -/
def LoadOp.unsigned : LoadOp → Bool
  | .lbu | .lhu => true
  | _ => false

/-- The number of bytes. -/
def Width.bytes : Width → ℕ
  | .byte => 1
  | .half => 2
  | .word => 4

/-- What is written to `rd`: a computed value, or what the load returns. -/
inductive Result
  | value (v : BitVec 32)
  | loaded
  deriving DecidableEq, Repr

/-- A memory access. A store writes the low bytes of `data`. -/
inductive MemOp
  | load (width : Width) (unsigned : Bool) (addr : BitVec 32)
  | store (width : Width) (addr data : BitVec 32)
  deriving DecidableEq, Repr

/-- The address of the access. -/
def MemOp.addr : MemOp → BitVec 32
  | .load _ _ addr | .store _ addr _ => addr

/-- The address of an access is a multiple of its width. -/
def MemOp.Aligned : MemOp → Prop
  | .load width _ addr | .store width addr _ => addr.toNat % width.bytes = 0

instance : ∀ op : MemOp, Decidable op.Aligned
  | .load width _ addr => inferInstanceAs (Decidable (addr.toNat % width.bytes = 0))
  | .store width addr _ => inferInstanceAs (Decidable (addr.toNat % width.bytes = 0))

/-- Everything an instruction does: the register result, the memory access, the pc of the
next instruction and the CSR write. -/
@[ext] structure Outcome where
  rd : Option (Reg × Result)
  mem : Option MemOp
  nextPc : BitVec 32
  csr : Option (BitVec 12 × BitVec 32)
  deriving DecidableEq, Repr

/-- An instruction that computes `v` into `rd` and falls through. -/
def Outcome.compute (pc : BitVec 32) (rd : Reg) (v : BitVec 32) : Outcome :=
  ⟨some (rd, .value v), none, pc + 4#32, none⟩

/-- The new value of a CSR, of its old value and the source operand. -/
def CsrOp.newValue (old src : BitVec 32) : CsrOp → BitVec 32
  | .rw => src
  | .rs => old ||| src
  | .rc => old &&& ~~~src

/-- A CSR instruction with the 5-bit source field `field`: set and clear write nothing when
that field is zero. -/
def Outcome.accessCsr (pc : BitVec 32) (op : CsrOp) (rd : Reg) (field : BitVec 5)
    (addr : BitVec 12) (old src : BitVec 32) : Outcome :=
  ⟨some (rd, .value old), none, pc + 4#32,
    if op ≠ .rw ∧ field = 0#5 then none else some (addr, op.newValue old src)⟩

/-- **What an instruction does** at `pc`, with `a` and `b` in its source registers and `old`
in the CSR it names. -/
def Instr.exec (pc a b old : BitVec 32) : Instr → Outcome
  | .lui rd imm => .compute pc rd (imm ++ 0#12)
  | .auipc rd imm => .compute pc rd (pc + (imm ++ 0#12))
  | .jal rd offset =>
    ⟨some (rd, .value (pc + 4#32)), none, pc + (offset ++ 0#1).signExtend 32, none⟩
  | .jalr rd _ offset =>
    ⟨some (rd, .value (pc + 4#32)), none, (a + offset.signExtend 32) &&& ~~~1#32, none⟩
  | .branch cond _ _ offset =>
    ⟨none, none,
      if cond.holds a b then pc + (offset ++ 0#1).signExtend 32 else pc + 4#32, none⟩
  | .load op rd _ offset =>
    ⟨some (rd, .loaded), some (.load op.width op.unsigned (a + offset.signExtend 32)),
      pc + 4#32, none⟩
  | .store width _ _ offset =>
    ⟨none, some (.store width (a + offset.signExtend 32) b), pc + 4#32, none⟩
  | .arithImm op rd _ imm => .compute pc rd (op.eval a (imm.signExtend 32))
  | .shiftImm op rd _ shamt => .compute pc rd (op.eval a shamt.toNat)
  | .arith op rd _ _ => .compute pc rd (op.eval a b)
  | .sub rd _ _ => .compute pc rd (a - b)
  | .shift op rd _ _ => .compute pc rd (op.eval a (b.toNat % 32))
  | .csr op rd rs1 addr => .accessCsr pc op rd rs1 addr old a
  | .csrImm op rd uimm addr => .accessCsr pc op rd uimm addr old (uimm.setWidth 32)

/-! ## Memory

Bytes at 32-bit addresses. An access of several bytes goes through consecutive addresses, the
low byte first. -/

/-- Byte-addressed memory. -/
abbrev ByteMem := BitVec 32 → BitVec 8

/-- The little-endian field at an address. -/
def ByteMem.read (m : ByteMem) (addr : BitVec 32) : (width : Width) → BitVec (8 * width.bytes)
  | .byte => m addr
  | .half => m (addr + 1#32) ++ m addr
  | .word => m (addr + 3#32) ++ m (addr + 2#32) ++ m (addr + 1#32) ++ m addr

/-- What a load returns: the field, zero or sign extended. -/
def ByteMem.load (m : ByteMem) (width : Width) (unsigned : Bool) (addr : BitVec 32) :
    BitVec 32 :=
  if unsigned then (m.read addr width).setWidth 32 else (m.read addr width).signExtend 32

/-- The address is one of the bytes of an access. -/
def Touches (width : Width) (addr x : BitVec 32) : Prop := (x - addr).toNat < width.bytes

instance (width : Width) (addr x : BitVec 32) : Decidable (Touches width addr x) :=
  inferInstanceAs (Decidable (_ < _))

/-- A store writes the low bytes of `data`, the lowest at `addr`. -/
def ByteMem.store (m : ByteMem) (width : Width) (addr data : BitVec 32) : ByteMem := fun x =>
  if Touches width addr x then data.extractLsb' (8 * (x - addr).toNat) 8 else m x

end Rv32
