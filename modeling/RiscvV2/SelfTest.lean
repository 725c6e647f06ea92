import RiscvV2.ConstantLoad
import RiscvV2.HartRefinement

/-!
# The board self-test (`simple_test.c`)

`build_program` writes a program into a buffer, test by test: code that leaves a value in
`a1`, a store of it into the next result slot, and the value that is expected there. Its
tests have a dozen shapes. Here the shapes are given as operations of the ISA, for arbitrary
operands, and the buffer is shown to hold their encodings.

A statement of `build_program` is an action on the buffer and the tables. First it is
transcribed section by section. Then each section is shown to be the generation of a list of
tests, and for a test with any operands the words in the buffer are the encodings of its
operations (`Emits`). So nothing in what follows depends on the particular constants of the
source.
-/

namespace RiscvV2

open Rv32 (Reg Instr Op MulDivOp Cond Width LoadOp ArithOp ShiftOp ByteMem)

namespace Firmware

/-! ## The source -/

/-- `RA` -/
def ra : Word := 1#32
/-- `T0` -/
def t0 : Word := 5#32
/-- `T1` -/
def t1 : Word := 6#32
/-- `T2` -/
def t2 : Word := 7#32
/-- `A0`: result base pointer -/
def a0 : Word := 10#32
/-- `A1`: value being stored -/
def a1 : Word := 11#32
/-- `A2`: scratch base pointer -/
def a2 : Word := 12#32

/-- `STATUS_OFF`: the core writes the done marker here. -/
def statusOff : Word := 0x10#32
/-- `RESULT_OFF`: result `i` is at `RESULT_OFF + 4 * i`. -/
def resultOff : Word := 0x40#32
/-- `SCRATCH_OFF` -/
def scratchOff : Word := 0x200#32
/-- `STATUS_DONE` -/
def statusDone : Word := 0xcafecafe#32

/-- The program buffer and the tables of `result`. Their lengths are `prog_n` and `test_n`. -/
structure Builder where
  prog : List Word := []
  expName : List String := []
  expVal : List Word := []

/-- A statement of `build_program`. -/
abbrev Build := StateM Builder Unit

namespace Build

/-- `emit` -/
def emit (w : Word) : Build := modify fun b => { b with prog := Firmware.emit b.prog w }

/-- `li` -/
def li (rd val : Word) : Build := modify fun b => { b with prog := Firmware.li b.prog rd val }

/-- `result`: the store into the next slot, and its entry in the tables. -/
def result (name : String) (expected : Word) : Build := do
  let b ← get
  emit (encS (BitVec.ofNat 32 b.expVal.length * 4#32) a1 a0 0x2#32)
  modify fun b => { b with expName := b.expName ++ [name], expVal := b.expVal ++ [expected] }

/-- `RR`: an operation on two constants. -/
def rr (lhs rhs f7 f3 : Word) : Build := do
  li t0 lhs
  li t1 rhs
  emit (encR f7 t1 t0 f3 a1)

/-- `BR_TAKEN` -/
def brTaken (name : String) (f3 v0 v1 exp : Word) : Build := do
  li t0 v0; li t1 v1
  emit (encI 1 zero 0x0 a1 opI)
  emit (encB 8 t1 t0 f3)
  emit (encI 0 zero 0x0 a1 opI)
  result name exp

/-! ### `build_program`, section by section -/

/-- R-type instructions. -/
def rTypeTests : Build := do
  li t0 10; li t1 20; emit (encR 0x00 t1 t0 0x0 a1); result "ADD" 30
  li t0 50; li t1 30; emit (encR 0x20 t1 t0 0x0 a1); result "SUB" 20
  li t0 0xff; li t1 0x0f; emit (encR 0x00 t1 t0 0x7 a1); result "AND" 0x0f
  li t0 0xf0; li t1 0x0f; emit (encR 0x00 t1 t0 0x6 a1); result "OR" 0xff
  li t0 0xff; li t1 0x0f; emit (encR 0x00 t1 t0 0x4 a1); result "XOR" 0xf0
  li t0 1; li t1 4; emit (encR 0x00 t1 t0 0x1 a1); result "SLL" 16
  li t0 0x80000000; li t1 1; emit (encR 0x00 t1 t0 0x5 a1); result "SRL" 0x40000000
  li t0 (-8); li t1 1; emit (encR 0x20 t1 t0 0x5 a1); result "SRA" (-4)
  li t0 (-1); li t1 1; emit (encR 0x00 t1 t0 0x2 a1); result "SLT" 1
  li t0 1; li t1 2; emit (encR 0x00 t1 t0 0x3 a1); result "SLTU" 1
  li t0 (-1); li t1 1; emit (encR 0x00 t1 t0 0x3 a1); result "SLTU(big)" 0

/-- RV32M instructions. -/
def rv32mTests : Build := do
  rr 0xfffffffd 7 0x01 0x0; result "MUL" 0xffffffeb
  rr 0x80000000 2 0x01 0x1; result "MULH" 0xffffffff
  rr 0xfffffffe 3 0x01 0x2; result "MULHSU" 0xffffffff
  rr 0xffffffff 2 0x01 0x3; result "MULHU" 0x00000001
  rr 0xffffffac 7 0x01 0x4; result "DIV" 0xfffffff4
  rr 84 7 0x01 0x5; result "DIVU" 0x0000000c
  rr 0xffffffab 7 0x01 0x6; result "REM" 0xffffffff
  rr 85 7 0x01 0x7; result "REMU" 0x00000001
  rr 123 0 0x01 0x4; result "DIV_ZERO" 0xffffffff
  rr 123 0 0x01 0x6; result "REM_ZERO" 0x0000007b
  rr 0x80000000 0xffffffff 0x01 0x4; result "DIV_OVF" 0x80000000
  rr 0x80000000 0xffffffff 0x01 0x6; result "REM_OVF" 0x00000000

/-- I-type instructions. -/
def iTypeTests : Build := do
  li t0 100; emit (encI 23 t0 0x0 a1 opI); result "ADDI" 123
  li t0 0xff; emit (encI 0x0f t0 0x7 a1 opI); result "ANDI" 0x0f
  li t0 0xf0; emit (encI 0x0f t0 0x6 a1 opI); result "ORI" 0xff
  li t0 0xff; emit (encI 0x0f t0 0x4 a1 opI); result "XORI" 0xf0
  li t0 1; emit (encIsh 0x00 3 t0 0x1 a1); result "SLLI" 8
  li t0 64; emit (encIsh 0x00 2 t0 0x5 a1); result "SRLI" 16
  li t0 (-8); emit (encIsh 0x20 1 t0 0x5 a1); result "SRAI" (-4)
  li t0 (-5); emit (encI 0 t0 0x2 a1 opI); result "SLTI" 1
  li t0 0; emit (encI 5 t0 0x3 a1 opI); result "SLTIU" 1

/-- Fences. -/
def fenceTests : Build := do
  emit 0x0ff0000f
  li a1 1
  result "FENCE" 1
  emit 0x0000100f
  li a1 1
  result "FENCE.I" 1

/-- U-type instructions. -/
def uTypeTests : Build := do
  emit (encU 0xabcde a1 opLui); result "LUI" 0xabcde000
  emit (encU 0 t0 opAuipc)
  emit (encU 0 t1 opAuipc)
  emit (encR 0x20 t0 t1 0x0 a1)
  result "AUIPC(diff)" 4

/-- Loads and stores. -/
def memoryTests : Build := do
  li t0 0x12345678
  emit (encS 0 t0 a2 0x2)
  emit (encI 0 a2 0x2 a1 opLoad)
  result "SW/LW" 0x12345678
  li t0 0x8000
  emit (encS 4 t0 a2 0x1)
  emit (encI 4 a2 0x1 a1 opLoad)
  result "SH/LH" 0xffff8000
  emit (encI 4 a2 0x5 a1 opLoad)
  result "LHU" 0x00008000
  li t0 0x80
  emit (encS 8 t0 a2 0x0)
  emit (encI 8 a2 0x0 a1 opLoad)
  result "SB/LB" 0xffffff80
  emit (encI 8 a2 0x4 a1 opLoad)
  result "LBU" 0x00000080

/-- Branches. -/
def branchTests : Build := do
  brTaken "BEQ" 0x0 7 7 1
  brTaken "BNE" 0x1 7 8 1
  brTaken "BLT" 0x4 (-1) 1 1
  brTaken "BGE" 0x5 5 3 1
  brTaken "BLTU" 0x6 1 2 1
  brTaken "BGEU" 0x7 2 1 1
  li t0 7
  emit (encI 0 zero 0x0 a1 opI)
  emit (encB 8 t0 t0 0x1)
  emit (encI 1 zero 0x0 a1 opI)
  result "BNE(not taken)" 1

/-- Jumps. -/
def jumpTests : Build := do
  emit (encI 0 zero 0x0 a1 opI)
  emit (encJ 8 ra)
  emit (encI 0 zero 0x0 a1 opI)
  emit (encI 1 zero 0x0 a1 opI)
  result "JAL" 1
  emit (encU 0 t2 opAuipc)
  emit (encI 0 zero 0x0 a1 opI)
  emit (encI 16 t2 0x0 zero opJalr)
  emit (encI 0 zero 0x0 a1 opI)
  emit (encI 1 zero 0x0 a1 opI)
  result "JALR" 1

/-- The done marker, and a jump to itself. -/
def done : Build := do
  li a1 statusDone
  emit (encS (statusOff - resultOff) a1 a0 0x2)
  emit (encJ 0 zero)

/-- `build_program` -/
def buildProgram : Build := do
  set ({} : Builder)
  li a0 resultOff
  li a2 scratchOff
  rTypeTests
  rv32mTests
  iTypeTests
  fenceTests
  uTypeTests
  memoryTests
  branchTests
  jumpTests
  done

end Build

/-- What `build_program` leaves. -/
def built : Builder := (Build.buildProgram.run {}).2

/-! ## The tests as operations

A `Probe` is the shape of a test with its operands. It can be read in two ways, as the
statements that generate it and as the operations that the core is to execute. -/

/-- The number of `RA` -/
abbrev xRa : Reg := 1#5
/-- The number of `T0` -/
abbrev xT0 : Reg := 5#5
/-- The number of `T1` -/
abbrev xT1 : Reg := 6#5
/-- The number of `T2` -/
abbrev xT2 : Reg := 7#5
/-- The number of `A0` -/
abbrev xA0 : Reg := 10#5
/-- The number of `A1` -/
abbrev xA1 : Reg := 11#5
/-- The number of `A2` -/
abbrev xA2 : Reg := 12#5

/-- The operations of `li`. -/
def liOps (rd : Reg) (val : Word) : List Op := (liCode rd val).map Op.instr

/-- `addi rd, x0, k` -/
def addi (rd : Reg) (k : BitVec 12) : Op := .instr (.arithImm .add rd 0#5 k)

/-- The operations on two registers. -/
inductive RegOp
  | arith (op : ArithOp)
  | sub
  | shift (op : ShiftOp)
  | mulDiv (op : MulDivOp)
  deriving DecidableEq, Repr

namespace RegOp

/-- The `funct7` of the encoding. -/
def funct7 : RegOp → BitVec 7
  | .arith _ => 0b0000000#7
  | .sub => 0b0100000#7
  | .shift op => op.funct7
  | .mulDiv _ => 0b0000001#7

/-- The `funct3` of the encoding. -/
def funct3 : RegOp → BitVec 3
  | .arith op => op.funct3
  | .sub => 0b000#3
  | .shift op => op.funct3
  | .mulDiv op => op.funct3

/-- The operation on given registers. -/
def op (rd rs1 rs2 : Reg) : RegOp → Op
  | .arith op => .instr (.arith op rd rs1 rs2)
  | .sub => .instr (.sub rd rs1 rs2)
  | .shift op => .instr (.shift op rd rs1 rs2)
  | .mulDiv op => .mulDiv op rd rs1 rs2

/-- What it computes. -/
def eval (a b : Word) : RegOp → Word
  | .arith op => op.eval a b
  | .sub => a - b
  | .shift op => op.eval a (b.toNat % 32)
  | .mulDiv op => op.eval a b

theorem encode_op (rd rs1 rs2 : Reg) (o : RegOp) :
    (o.op rd rs1 rs2).encode = Rv32.rType o.funct7 rs2 rs1 o.funct3 rd opcodeOp := by
  cases o <;> rfl

end RegOp

/-- What is tested: the shapes of the tests in `build_program`. -/
inductive Probe
  /-- an operation on two registers -/
  | reg (op : RegOp) (lhs rhs : Word)
  | regImm (op : ArithOp) (v : Word) (imm : BitVec 12)
  | shiftImm (op : ShiftOp) (v : Word) (shamt : BitVec 5)
  | fence
  | fenceI
  | lui (imm : BitVec 20)
  /-- the distance of two `auipc` -/
  | auipcDiff
  /-- a store to the scratch area, and a load from the same place -/
  | storeLoad (width : Width) (load : LoadOp) (v : Word) (offset : BitVec 12)
  /-- another load from there -/
  | reload (load : LoadOp) (offset : BitVec 12)
  /-- 1 if the branch is taken -/
  | taken (cond : Cond) (v0 v1 : Word)
  /-- 1 if the branch on a register and itself is not taken -/
  | notTaken (cond : Cond) (v : Word)
  | jal
  | jalr
  deriving DecidableEq, Repr

namespace Probe

/-- The statements of `build_program` for it, without the call of `result`. -/
def build : Probe → Build
  | .reg op lhs rhs => Build.rr lhs rhs (op.funct7.setWidth 32) (op.funct3.setWidth 32)
  | .regImm op v imm => do
    Build.li t0 v
    Build.emit (encI (imm.signExtend 32) t0 (op.funct3.setWidth 32) a1 opI)
  | .shiftImm op v shamt => do
    Build.li t0 v
    Build.emit
      (encIsh (op.funct7.setWidth 32) (shamt.setWidth 32) t0 (op.funct3.setWidth 32) a1)
  | .fence => do
    Build.emit 0x0ff0000f
    Build.li a1 1
  | .fenceI => do
    Build.emit 0x0000100f
    Build.li a1 1
  | .lui imm => Build.emit (encU (imm.setWidth 32) a1 opLui)
  | .auipcDiff => do
    Build.emit (encU 0 t0 opAuipc)
    Build.emit (encU 0 t1 opAuipc)
    Build.emit (encR 0x20 t0 t1 0x0 a1)
  | .storeLoad width load v offset => do
    Build.li t0 v
    Build.emit (encS (offset.signExtend 32) t0 a2 (width.funct3.setWidth 32))
    Build.emit (encI (offset.signExtend 32) a2 (load.funct3.setWidth 32) a1 opLoad)
  | .reload load offset =>
    Build.emit (encI (offset.signExtend 32) a2 (load.funct3.setWidth 32) a1 opLoad)
  | .taken cond v0 v1 => do
    Build.li t0 v0
    Build.li t1 v1
    Build.emit (encI 1 zero 0x0 a1 opI)
    Build.emit (encB 8 t1 t0 (cond.funct3.setWidth 32))
    Build.emit (encI 0 zero 0x0 a1 opI)
  | .notTaken cond v => do
    Build.li t0 v
    Build.emit (encI 0 zero 0x0 a1 opI)
    Build.emit (encB 8 t0 t0 (cond.funct3.setWidth 32))
    Build.emit (encI 1 zero 0x0 a1 opI)
  | .jal => do
    Build.emit (encI 0 zero 0x0 a1 opI)
    Build.emit (encJ 8 ra)
    Build.emit (encI 0 zero 0x0 a1 opI)
    Build.emit (encI 1 zero 0x0 a1 opI)
  | .jalr => do
    Build.emit (encU 0 t2 opAuipc)
    Build.emit (encI 0 zero 0x0 a1 opI)
    Build.emit (encI 16 t2 0x0 zero opJalr)
    Build.emit (encI 0 zero 0x0 a1 opI)
    Build.emit (encI 1 zero 0x0 a1 opI)

/-- Its operations. Offsets of branches and jumps count half-words. -/
def code : Probe → List Op
  | .reg op lhs rhs => liOps xT0 lhs ++ (liOps xT1 rhs ++ [op.op xA1 xT0 xT1])
  | .regImm op v imm => liOps xT0 v ++ [.instr (.arithImm op xA1 xT0 imm)]
  | .shiftImm op v shamt => liOps xT0 v ++ [.instr (.shiftImm op xA1 xT0 shamt)]
  | .fence => .fence 0x0ff#12 0#5 0#5 :: liOps xA1 1
  | .fenceI => .fenceI 0#12 0#5 0#5 :: liOps xA1 1
  | .lui imm => [.instr (.lui xA1 imm)]
  | .auipcDiff =>
    [.instr (.auipc xT0 0#20), .instr (.auipc xT1 0#20), .instr (.sub xA1 xT1 xT0)]
  | .storeLoad width load v offset =>
    liOps xT0 v ++
      [.instr (.store width xA2 xT0 offset), .instr (.load load xA1 xA2 offset)]
  | .reload load offset => [.instr (.load load xA1 xA2 offset)]
  | .taken cond v0 v1 =>
    liOps xT0 v0 ++ (liOps xT1 v1 ++
      [addi xA1 1#12, .instr (.branch cond xT0 xT1 4#12), addi xA1 0#12])
  | .notTaken cond v =>
    liOps xT0 v ++ [addi xA1 0#12, .instr (.branch cond xT0 xT0 4#12), addi xA1 1#12]
  | .jal => [addi xA1 0#12, .instr (.jal xRa 4#20), addi xA1 0#12, addi xA1 1#12]
  | .jalr =>
    [.instr (.auipc xT2 0#20), addi xA1 0#12, .instr (.jalr 0#5 xT2 16#12), addi xA1 0#12,
      addi xA1 1#12]

end Probe

/-- A test: a probe with a name and the value that `result` records. -/
structure Test where
  name : String
  expected : Word
  probe : Probe

/-- The statements of a test. -/
def Test.build (t : Test) : Build := do
  t.probe.build
  Build.result t.name t.expected

/-- The statements for a list of tests. -/
def buildAll : List Test → Build
  | [] => pure ()
  | t :: ts => do
    t.build
    buildAll ts

/-- The program of a list of tests. -/
def generate (tests : List Test) : Build := do
  set ({} : Builder)
  Build.li a0 resultOff
  Build.li a2 scratchOff
  buildAll tests
  Build.done

/-! ### The tests of `build_program`, section by section -/

namespace Tests

/-- R-type instructions. -/
def rType : List Test :=
  [⟨"ADD", 30, .reg (.arith .add) 10 20⟩, ⟨"SUB", 20, .reg .sub 50 30⟩,
    ⟨"AND", 0x0f, .reg (.arith .and) 0xff 0x0f⟩, ⟨"OR", 0xff, .reg (.arith .or) 0xf0 0x0f⟩,
    ⟨"XOR", 0xf0, .reg (.arith .xor) 0xff 0x0f⟩, ⟨"SLL", 16, .reg (.shift .sll) 1 4⟩,
    ⟨"SRL", 0x40000000, .reg (.shift .srl) 0x80000000 1⟩,
    ⟨"SRA", -4, .reg (.shift .sra) (-8) 1⟩, ⟨"SLT", 1, .reg (.arith .slt) (-1) 1⟩,
    ⟨"SLTU", 1, .reg (.arith .sltu) 1 2⟩, ⟨"SLTU(big)", 0, .reg (.arith .sltu) (-1) 1⟩]

/-- RV32M, with the corner cases of the division. -/
def rv32m : List Test :=
  [⟨"MUL", 0xffffffeb, .reg (.mulDiv .mul) 0xfffffffd 7⟩,
    ⟨"MULH", 0xffffffff, .reg (.mulDiv .mulh) 0x80000000 2⟩,
    ⟨"MULHSU", 0xffffffff, .reg (.mulDiv .mulhsu) 0xfffffffe 3⟩,
    ⟨"MULHU", 0x00000001, .reg (.mulDiv .mulhu) 0xffffffff 2⟩,
    ⟨"DIV", 0xfffffff4, .reg (.mulDiv .div) 0xffffffac 7⟩,
    ⟨"DIVU", 0x0000000c, .reg (.mulDiv .divu) 84 7⟩,
    ⟨"REM", 0xffffffff, .reg (.mulDiv .rem) 0xffffffab 7⟩,
    ⟨"REMU", 0x00000001, .reg (.mulDiv .remu) 85 7⟩,
    ⟨"DIV_ZERO", 0xffffffff, .reg (.mulDiv .div) 123 0⟩,
    ⟨"REM_ZERO", 0x0000007b, .reg (.mulDiv .rem) 123 0⟩,
    ⟨"DIV_OVF", 0x80000000, .reg (.mulDiv .div) 0x80000000 0xffffffff⟩,
    ⟨"REM_OVF", 0x00000000, .reg (.mulDiv .rem) 0x80000000 0xffffffff⟩]

/-- I-type instructions. -/
def iType : List Test :=
  [⟨"ADDI", 123, .regImm .add 100 23⟩, ⟨"ANDI", 0x0f, .regImm .and 0xff 0x0f⟩,
    ⟨"ORI", 0xff, .regImm .or 0xf0 0x0f⟩, ⟨"XORI", 0xf0, .regImm .xor 0xff 0x0f⟩,
    ⟨"SLLI", 8, .shiftImm .sll 1 3⟩, ⟨"SRLI", 16, .shiftImm .srl 64 2⟩,
    ⟨"SRAI", -4, .shiftImm .sra (-8) 1⟩, ⟨"SLTI", 1, .regImm .slt (-5) 0⟩,
    ⟨"SLTIU", 1, .regImm .sltu 0 5⟩]

/-- Fences. -/
def fence : List Test := [⟨"FENCE", 1, .fence⟩, ⟨"FENCE.I", 1, .fenceI⟩]

/-- U-type instructions. -/
def uType : List Test := [⟨"LUI", 0xabcde000, .lui 0xabcde⟩, ⟨"AUIPC(diff)", 4, .auipcDiff⟩]

/-- Loads and stores. A test may load what the one before has stored. -/
def memory : List Test :=
  [⟨"SW/LW", 0x12345678, .storeLoad .word .lw 0x12345678 0⟩,
    ⟨"SH/LH", 0xffff8000, .storeLoad .half .lh 0x8000 4⟩,
    ⟨"LHU", 0x00008000, .reload .lhu 4⟩,
    ⟨"SB/LB", 0xffffff80, .storeLoad .byte .lb 0x80 8⟩, ⟨"LBU", 0x00000080, .reload .lbu 8⟩]

/-- Branches. -/
def branch : List Test :=
  [⟨"BEQ", 1, .taken .beq 7 7⟩, ⟨"BNE", 1, .taken .bne 7 8⟩,
    ⟨"BLT", 1, .taken .blt (-1) 1⟩, ⟨"BGE", 1, .taken .bge 5 3⟩,
    ⟨"BLTU", 1, .taken .bltu 1 2⟩, ⟨"BGEU", 1, .taken .bgeu 2 1⟩,
    ⟨"BNE(not taken)", 1, .notTaken .bne 7⟩]

/-- Jumps. -/
def jump : List Test := [⟨"JAL", 1, .jal⟩, ⟨"JALR", 1, .jalr⟩]

end Tests

/-- The tests of `build_program`. -/
def selfTests : List Test :=
  Tests.rType ++ (Tests.rv32m ++ (Tests.iType ++ (Tests.fence ++ (Tests.uType ++
    (Tests.memory ++ (Tests.branch ++ Tests.jump))))))

section sections

open Build

theorem buildAll_append (ts ts' : List Test) :
    buildAll (ts ++ ts') = (do buildAll ts; buildAll ts') := by
  induction ts with
  | nil => rfl
  | cons t ts ih => rw [List.cons_append, buildAll, buildAll, ih, bind_assoc]

theorem rTypeTests_eq : rTypeTests = buildAll Tests.rType := by
  simp only [rTypeTests, Tests.rType, buildAll, Test.build, Probe.build, rr, bind_assoc]
  rfl

theorem rv32mTests_eq : rv32mTests = buildAll Tests.rv32m := by
  simp only [rv32mTests, Tests.rv32m, buildAll, Test.build, Probe.build, rr, bind_assoc]
  rfl

theorem iTypeTests_eq : iTypeTests = buildAll Tests.iType := by
  simp only [iTypeTests, Tests.iType, buildAll, Test.build, Probe.build, bind_assoc]
  rfl

theorem fenceTests_eq : fenceTests = buildAll Tests.fence := by
  simp only [fenceTests, Tests.fence, buildAll, Test.build, Probe.build, bind_assoc]
  rfl

theorem uTypeTests_eq : uTypeTests = buildAll Tests.uType := by
  simp only [uTypeTests, Tests.uType, buildAll, Test.build, Probe.build, bind_assoc]
  rfl

theorem memoryTests_eq : memoryTests = buildAll Tests.memory := by
  simp only [memoryTests, Tests.memory, buildAll, Test.build, Probe.build, bind_assoc]
  rfl

theorem branchTests_eq : branchTests = buildAll Tests.branch := by
  simp only [branchTests, Tests.branch, buildAll, Test.build, Probe.build, brTaken, bind_assoc]
  rfl

theorem jumpTests_eq : jumpTests = buildAll Tests.jump := by
  simp only [jumpTests, Tests.jump, buildAll, Test.build, Probe.build, bind_assoc]
  rfl

/-- `build_program` generates the program of its tests. -/
theorem buildProgram_eq : buildProgram = generate selfTests := by
  simp only [generate, selfTests, buildAll_append, bind_assoc, buildProgram, rTypeTests_eq,
    rv32mTests_eq, iTypeTests_eq, fenceTests_eq, uTypeTests_eq, memoryTests_eq, branchTests_eq,
    jumpTests_eq]

end sections

/-! ## What is in the buffer

`Emits` says of a statement what it appends to the buffer. It composes like the statements do,
so the proof for a probe follows its definition line by line. -/

/-- A statement appends the encodings of these operations to the buffer. -/
def Emits (s : Build) (ops : List Op) : Prop :=
  ∀ b : Builder, (s.run b).2 = { b with prog := b.prog ++ ops.map Op.encode }

theorem Emits.bind {s s' : Build} {ops ops' : List Op} (h : Emits s ops) (h' : Emits s' ops') :
    Emits (do s; s') (ops ++ ops') := by
  intro b
  have hrun : ((do s; s').run b).2 = (s'.run (s.run b).2).2 := rfl
  rw [hrun, h b, h', List.map_append, ← List.append_assoc]

theorem emits_emit {w : Word} {op : Op} (hw : w = op.encode) : Emits (Build.emit w) [op] := by
  subst hw
  exact fun b => rfl

theorem emits_li (rd : Reg) (val : Word) :
    Emits (Build.li (rd.setWidth 32) val) (liOps rd val) := by
  intro b
  have hcode : (liOps rd val).map Op.encode = (liCode rd val).map Instr.encode := by
    rw [liOps, List.map_map]
    rfl
  have hrun : ((Build.li (rd.setWidth 32) val).run b).2 =
      { b with prog := li b.prog (rd.setWidth 32) val } := rfl
  rw [hrun, hcode, li_eq]

theorem emits_addi (rd : Reg) (k : BitVec 12) :
    Emits (Build.emit (encI (k.signExtend 32) zero 0x0 (rd.setWidth 32) opI)) [addi rd k] :=
  emits_emit (encI_eq 0#5 rd 0#3 k opcodeOpImm)

theorem emits_regOp (o : RegOp) (rd rs1 rs2 : Reg) :
    Emits (Build.emit (encR (o.funct7.setWidth 32) (rs2.setWidth 32) (rs1.setWidth 32)
      (o.funct3.setWidth 32) (rd.setWidth 32))) [o.op rd rs1 rs2] := by
  refine emits_emit ?_
  rw [encR_eq, o.encode_op]

theorem emits_auipc (rd : Reg) (imm : BitVec 20) :
    Emits (Build.emit (encU (imm.setWidth 32) (rd.setWidth 32) opAuipc)) [.instr (.auipc rd imm)] :=
  emits_emit (encU_eq rd imm opcodeAuipc)

theorem emits_load (load : LoadOp) (rd rs1 : Reg) (offset : BitVec 12) :
    Emits (Build.emit (encI (offset.signExtend 32) (rs1.setWidth 32) (load.funct3.setWidth 32)
      (rd.setWidth 32) opLoad)) [.instr (.load load rd rs1 offset)] :=
  emits_emit (encI_eq rs1 rd load.funct3 offset opcodeLoad)

theorem emits_store (width : Width) (rs1 rs2 : Reg) (offset : BitVec 12) :
    Emits (Build.emit (encS (offset.signExtend 32) (rs2.setWidth 32) (rs1.setWidth 32)
      (width.funct3.setWidth 32))) [.instr (.store width rs1 rs2 offset)] :=
  emits_emit (encS_eq rs2 rs1 width.funct3 offset)

theorem emits_branch (cond : Cond) (rs1 rs2 : Reg) (offset : BitVec 12) :
    Emits (Build.emit (encB ((offset ++ 0#1).signExtend 32) (rs2.setWidth 32) (rs1.setWidth 32)
      (cond.funct3.setWidth 32))) [.instr (.branch cond rs1 rs2 offset)] :=
  emits_emit (encB_eq rs2 rs1 cond.funct3 offset)

theorem emits_jal (rd : Reg) (offset : BitVec 20) :
    Emits (Build.emit (encJ ((offset ++ 0#1).signExtend 32) (rd.setWidth 32)))
      [.instr (.jal rd offset)] :=
  emits_emit (encJ_eq rd offset)

/-- **The statements of a probe emit its operations**, whatever its operands. -/
theorem Probe.emits (p : Probe) : Emits p.build p.code := by
  cases p with
  | reg o lhs rhs =>
    exact (emits_li xT0 lhs).bind ((emits_li xT1 rhs).bind (emits_regOp o xA1 xT0 xT1))
  | regImm o v imm =>
    exact (emits_li xT0 v).bind (emits_emit (encI_eq xT0 xA1 o.funct3 imm opcodeOpImm))
  | shiftImm o v shamt =>
    exact (emits_li xT0 v).bind (emits_emit (encIsh_eq o.funct7 shamt xT0 xA1 o.funct3))
  | fence =>
    have hfence : Emits (Build.emit 0x0ff0000f) [.fence 0x0ff#12 0#5 0#5] := emits_emit rfl
    exact hfence.bind (emits_li xA1 1)
  | fenceI =>
    have hfence : Emits (Build.emit 0x0000100f) [.fenceI 0#12 0#5 0#5] := emits_emit rfl
    exact hfence.bind (emits_li xA1 1)
  | lui imm => exact emits_emit (encU_eq xA1 imm opcodeLui)
  | auipcDiff =>
    exact (emits_auipc xT0 0#20).bind ((emits_auipc xT1 0#20).bind
      (emits_regOp .sub xA1 xT1 xT0))
  | storeLoad width load v offset =>
    exact (emits_li xT0 v).bind ((emits_store width xA2 xT0 offset).bind
      (emits_load load xA1 xA2 offset))
  | reload load offset => exact emits_load load xA1 xA2 offset
  | taken cond v0 v1 =>
    exact (emits_li xT0 v0).bind ((emits_li xT1 v1).bind ((emits_addi xA1 1#12).bind
      ((emits_branch cond xT0 xT1 4#12).bind (emits_addi xA1 0#12))))
  | notTaken cond v =>
    exact (emits_li xT0 v).bind ((emits_addi xA1 0#12).bind
      ((emits_branch cond xT0 xT0 4#12).bind (emits_addi xA1 1#12)))
  | jal =>
    exact (emits_addi xA1 0#12).bind ((emits_jal xRa 4#20).bind
      ((emits_addi xA1 0#12).bind (emits_addi xA1 1#12)))
  | jalr =>
    exact (emits_auipc xT2 0#20).bind ((emits_addi xA1 0#12).bind
      ((emits_emit (encI_eq xT2 0#5 0#3 16#12 opcodeJalr)).bind
        ((emits_addi xA1 0#12).bind (emits_addi xA1 1#12))))

/-! ### The program of a list of tests -/

/-- The store of `result` into slot `n`. -/
def slotOp (n : ℕ) : Op := .instr (.store .word xA0 xA1 (BitVec.ofNat 12 (4 * n)))

/-- The code of tests whose results go into the slots from `n` on. -/
def testsCode : ℕ → List Test → List Op
  | _, [] => []
  | n, t :: ts => t.probe.code ++ (slotOp n :: testsCode (n + 1) ts)

/-- The base pointers. -/
def prologue : List Op := liOps xA0 resultOff ++ liOps xA2 scratchOff

/-- The store of the done marker. -/
def epilogue : List Op := liOps xA1 statusDone ++ [.instr (.store .word xA0 xA1 (-0x30))]

/-- `jal x0, 0` -/
def selfLoop : Op := .instr (.jal 0#5 0#20)

/-- The operations of the program of a list of tests. -/
def programOps (tests : List Test) : List Op :=
  prologue ++ (testsCode 0 tests ++ (epilogue ++ [selfLoop]))

/-- The slots that a positive 12-bit offset reaches. -/
theorem slotOffset {n : ℕ} (hn : n < 512) :
    (BitVec.ofNat 32 n * 4#32 : Word) = (BitVec.ofNat 12 (4 * n)).signExtend 32 := by
  have hmsb : (BitVec.ofNat 12 (4 * n)).msb = false := by
    rw [BitVec.msb_eq_decide, decide_eq_false_iff_not, BitVec.toNat_ofNat]
    omega
  refine BitVec.eq_of_toNat_eq ?_
  rw [BitVec.signExtend_eq_setWidth_of_msb_false hmsb, BitVec.toNat_setWidth, BitVec.toNat_ofNat,
    BitVec.toNat_mul, BitVec.toNat_ofNat, BitVec.toNat_ofNat]
  omega

/-- `result` stores the value and records what is expected. -/
theorem result_run (name : String) (expected : Word) {b : Builder} (hn : b.expVal.length < 512) :
    ((Build.result name expected).run b).2 =
      ⟨b.prog ++ [(slotOp b.expVal.length).encode], b.expName ++ [name],
        b.expVal ++ [expected]⟩ := by
  have hstore := emits_store .word xA0 xA1 (BitVec.ofNat 12 (4 * b.expVal.length)) b
  rw [← slotOffset hn] at hstore
  have hrun : ((Build.result name expected).run b).2 =
      { ((Build.emit (encS (BitVec.ofNat 32 b.expVal.length * 4#32) a1 a0 0x2#32)).run b).2 with
        expName := b.expName ++ [name], expVal := b.expVal ++ [expected] } := rfl
  rw [hrun]
  exact congrArg (fun b' : Builder =>
    ({ b' with expName := b.expName ++ [name], expVal := b.expVal ++ [expected] } : Builder)) hstore

theorem buildAll_run {tests : List Test} {b : Builder}
    (hn : b.expVal.length + tests.length ≤ 512) :
    ((buildAll tests).run b).2 =
      ⟨b.prog ++ (testsCode b.expVal.length tests).map Op.encode,
        b.expName ++ tests.map Test.name, b.expVal ++ tests.map Test.expected⟩ := by
  induction tests generalizing b with
  | nil =>
    simp only [testsCode, List.map_nil, List.append_nil]
    rfl
  | cons t ts ih =>
    rw [List.length_cons] at hn
    have hprobe := t.probe.emits b
    have hresult := result_run t.name t.expected
      (b := { b with prog := b.prog ++ t.probe.code.map Op.encode }) (by dsimp only; omega)
    have hrun : ((buildAll (t :: ts)).run b).2 = ((buildAll ts).run
        ((Build.result t.name t.expected).run ((t.probe.build).run b).2).2).2 := rfl
    rw [hrun, hprobe, hresult, ih (by simp; omega)]
    simp [testsCode]

/-- **The buffer holds the program**, and the tables what is expected. -/
theorem generate_run {tests : List Test} (hn : tests.length ≤ 512) (b : Builder) :
    ((generate tests).run b).2 =
      ⟨(programOps tests).map Op.encode, tests.map Test.name, tests.map Test.expected⟩ := by
  have hprologue := (emits_li xA0 resultOff).bind (emits_li xA2 scratchOff)
  have hdone : Emits Build.done (epilogue ++ [selfLoop]) := by
    have hemits := (emits_li xA1 statusDone).bind
      ((emits_store .word xA0 xA1 (-0x30)).bind (emits_jal 0#5 0#20))
    rw [epilogue, List.append_assoc]
    exact hemits
  have hrun : ((generate tests).run b).2 = (Build.done.run ((buildAll tests).run
      ((do Build.li a0 resultOff; Build.li a2 scratchOff).run {}).2).2).2 := rfl
  rw [hrun]
  have hfirst : ((do Build.li a0 resultOff; Build.li a2 scratchOff).run ({} : Builder)).2 = _ :=
    hprologue {}
  rw [hfirst, buildAll_run (by simpa using hn), hdone]
  simp [programOps, prologue]

theorem built_eq :
    built = ⟨(programOps selfTests).map Op.encode, selfTests.map Test.name,
      selfTests.map Test.expected⟩ := by
  rw [built, buildProgram_eq]
  exact generate_run (by decide) {}

end Firmware

end RiscvV2
