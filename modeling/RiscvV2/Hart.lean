import RiscvV2.Isa

/-!
# A machine-mode hart

The architecture around `Instr.exec`: the register file with `x0` wired to zero, byte memory,
the M extension, the system instructions, and what an exception does to all of it. What an
implementation is free to choose, its CSRs and the addresses without memory, is a `Platform`.

A program is a partial map from addresses to operations, and a hart has no step outside of
it: an address that holds no operation, or none that is known, ends the run.

An operation is an instruction of `Instr`, a multiplication or division, or one of the system: a
fence, an environment call, `mret` or `wfi`. Each has its encoding, so that a program can be put
into an instruction memory.

Nothing here refers to an implementation. The platform says how the CSRs behave and which
addresses have no memory, and the hart is executable for every platform that is.
-/

namespace Rv32

/-! ## Operations -/

/-- The multiplications and divisions. -/
inductive MulDivOp
  | mul | mulh | mulhsu | mulhu | div | divu | rem | remu
  deriving DecidableEq, Repr

/-- Everything a hart executes. The fields of a fence are hints. -/
inductive Op
  | instr (i : Instr)
  | mulDiv (op : MulDivOp) (rd rs1 rs2 : Reg)
  | fence (imm : BitVec 12) (rd rs1 : Reg)
  | fenceI (imm : BitVec 12) (rd rs1 : Reg)
  | ecall
  | ebreak
  | mret
  | wfi
  deriving DecidableEq, Repr

/-- The `funct3` of an operation of the M extension. -/
def MulDivOp.funct3 : MulDivOp → BitVec 3
  | .mul => 0b000#3
  | .mulh => 0b001#3
  | .mulhsu => 0b010#3
  | .mulhu => 0b011#3
  | .div => 0b100#3
  | .divu => 0b101#3
  | .rem => 0b110#3
  | .remu => 0b111#3

/-- The operation word. -/
def Op.encode : Op → BitVec 32
  | .instr i => i.encode
  | .mulDiv op rd rs1 rs2 => rType 0b0000001#7 rs2 rs1 op.funct3 rd 0b0110011#7
  | .fence imm rd rs1 => iType imm rs1 0b000#3 rd 0b0001111#7
  | .fenceI imm rd rs1 => iType imm rs1 0b001#3 rd 0b0001111#7
  | .ecall => iType 0x000#12 0#5 0b000#3 0#5 0b1110011#7
  | .ebreak => iType 0x001#12 0#5 0b000#3 0#5 0b1110011#7
  | .mret => iType 0x302#12 0#5 0b000#3 0#5 0b1110011#7
  | .wfi => iType 0x105#12 0#5 0b000#3 0#5 0b1110011#7

/-- The high halves are those of the 64-bit product. A division by zero gives all ones and
the dividend as its remainder. -/
def MulDivOp.eval (a b : BitVec 32) : MulDivOp → BitVec 32
  | .mul => a * b
  | .mulh => BitVec.ofInt 32 (a.toInt * b.toInt / 2 ^ 32)
  | .mulhsu => BitVec.ofInt 32 (a.toInt * b.toNat / 2 ^ 32)
  | .mulhu => BitVec.ofNat 32 (a.toNat * b.toNat / 2 ^ 32)
  | .div => if b = 0#32 then BitVec.allOnes 32 else a.sdiv b
  | .divu => if b = 0#32 then BitVec.allOnes 32 else a.udiv b
  | .rem => if b = 0#32 then a else a.srem b
  | .remu => if b = 0#32 then a else a.umod b

/-! ## Registers -/

/-- The integer registers, with `x0` zero. -/
@[ext] structure RegFile where
  get : Reg → BitVec 32
  get_zero : get 0#5 = 0#32

namespace RegFile

/-- All registers zero. -/
def zero : RegFile := ⟨fun _ => 0#32, rfl⟩

/-- A write to `x0` is dropped. -/
def set (r : RegFile) (rd : Reg) (v : BitVec 32) : RegFile where
  get x := if x = rd ∧ rd ≠ 0#5 then v else r.get x
  get_zero := by
    rw [if_neg (fun h => h.2 h.1.symm)]
    exact r.get_zero

/-- The value of an operand; without a register it is not looked at. -/
def operand (r : RegFile) (x : Option Reg) : BitVec 32 := x.elim 0#32 r.get

end RegFile

/-- The CSR an instruction names. -/
def Instr.csrAddr : Instr → Option (BitVec 12)
  | .csr _ _ _ addr | .csrImm _ _ _ addr => some addr
  | _ => none

/-- **An instruction looks at its own operands only.** -/
theorem Instr.exec_operands (i : Instr) {pc a b old a' b' old' : BitVec 32}
    (ha : i.rs1.isSome → a = a') (hb : i.rs2.isSome → b = b')
    (hold : i.csrAddr.isSome → old = old') : i.exec pc a b old = i.exec pc a' b' old' := by
  cases i with
  | lui | auipc | jal => rfl
  | jalr | load | arithImm | shiftImm =>
    obtain rfl := ha rfl
    rfl
  | branch | store | arith | sub | shift =>
    obtain rfl := ha rfl
    obtain rfl := hb rfl
    rfl
  | csr =>
    obtain rfl := ha rfl
    obtain rfl := hold rfl
    rfl
  | csrImm =>
    obtain rfl := hold rfl
    rfl

/-! ## Exceptions

An access is checked for alignment first and for memory behind it second, so that it raises at
most one exception. The cause is the one of the privileged architecture. -/

/-- The synchronous exceptions of the modelled instructions. -/
inductive Exception
  | breakpoint
  | loadMisaligned
  | loadFault
  | storeMisaligned
  | storeFault
  | ecall
  deriving DecidableEq, Repr

/-- The code of an exception in `mcause`. -/
def Exception.cause : Exception → BitVec 32
  | .breakpoint => 3#32
  | .loadMisaligned => 4#32
  | .loadFault => 5#32
  | .storeMisaligned => 6#32
  | .storeFault => 7#32
  | .ecall => 11#32

/-- The exception of an access: a misaligned address goes before one without memory. -/
def MemOp.exception (fault : BitVec 32 → Bool) (op : MemOp) : Option Exception :=
  if ¬op.Aligned then
    match op with
    | .load .. => some .loadMisaligned
    | .store .. => some .storeMisaligned
  else if fault op.addr then
    match op with
    | .load .. => some .loadFault
    | .store .. => some .storeFault
  else none

/-! ## The machine

An instruction is executed in two halves: `outcome` says what it is to do, from its operands and
the CSR it names, and `commit` does it. An exception comes between the two. -/

/-- What an implementation chooses: how its CSRs read, are written, enter a trap and return
from it, where a trap and a return go, and where an access finds no memory. -/
structure Platform (C : Type) where
  read : C → BitVec 12 → BitVec 32
  write : C → BitVec 12 → BitVec 32 → C
  trap : C → (epc cause tval : BitVec 32) → C
  mret : C → C
  handler : C → BitVec 32
  resume : C → BitVec 32
  fault : BitVec 32 → Bool

/-- The architectural state. -/
@[ext] structure Hart (C : Type) where
  pc : BitVec 32
  regs : RegFile
  mem : ByteMem
  csr : C

/-- A program: what stands at an address. -/
abbrev Program := BitVec 32 → Option Op

/-- The operations from address 0 on. -/
def Program.ofList (ops : List Op) : Program := fun addr =>
  if addr.toNat % 4 = 0 then ops[addr.toNat / 4]? else none

/-- The words of a program, zero where it has none. -/
def Program.words (prog : Program) (addr : BitVec 32) : BitVec 32 :=
  (prog addr).elim 0#32 Op.encode

namespace Hart

variable {C : Type} (P : Platform C)

/-- An exception saves what the handler needs and does nothing else. -/
def raise (h : Hart C) (e : Exception) (tval : BitVec 32) : Hart C :=
  { h with pc := P.handler h.csr, csr := P.trap h.csr h.pc e.cause tval }

/-- What an instruction is to do in this state. -/
def outcome (h : Hart C) (i : Instr) : Outcome :=
  i.exec h.pc (h.regs.operand i.rs1) (h.regs.operand i.rs2) (i.csrAddr.elim 0#32 (P.read h.csr))

/-- What a load returns. -/
def loaded (h : Hart C) : Option MemOp → BitVec 32
  | some (.load width unsigned addr) => h.mem.load width unsigned addr
  | _ => 0#32

/-- The registers after an outcome; a load supplies its own data. -/
def writeBack (h : Hart C) (o : Outcome) : RegFile :=
  match o.rd with
  | some (rd, .value v) => h.regs.set rd v
  | some (rd, .loaded) => h.regs.set rd (h.loaded o.mem)
  | none => h.regs

/-- The memory after an outcome. -/
def storeTo (h : Hart C) (o : Outcome) : ByteMem :=
  match o.mem with
  | some (.store width addr data) => h.mem.store width addr data
  | _ => h.mem

/-- The state after an outcome. -/
def commit (h : Hart C) (o : Outcome) : Hart C where
  pc := o.nextPc
  regs := h.writeBack o
  mem := h.storeTo o
  csr := o.csr.elim h.csr fun w => P.write h.csr w.1 w.2

/-- The memory access of an operation. -/
def access (h : Hart C) : Op → Option MemOp
  | .instr i => (h.outcome P i).mem
  | _ => none

/-- The exception of an outcome, with the trap value. -/
def exception (o : Outcome) : Option (Exception × BitVec 32) :=
  o.mem.bind fun op => (op.exception P.fault).map fun e => (e, op.addr)

/-- **One operation.** -/
def exec (h : Hart C) : Op → Hart C
  | .instr i =>
    match exception P (h.outcome P i) with
    | some (e, tval) => h.raise P e tval
    | none => h.commit P (h.outcome P i)
  | .mulDiv op rd rs1 rs2 =>
    { h with
      pc := h.pc + 4#32
      regs := h.regs.set rd (op.eval (h.regs.get rs1) (h.regs.get rs2)) }
  | .fence .. | .fenceI .. | .wfi => { h with pc := h.pc + 4#32 }
  | .ecall => h.raise P .ecall 0#32
  | .ebreak => h.raise P .breakpoint h.pc
  | .mret => { h with pc := P.resume h.csr, csr := P.mret h.csr }

/-- The operation at the pc, if there is one. -/
def step (prog : Program) (h : Hart C) : Option (Hart C) := (prog h.pc).map (h.exec P)

/-- The state after `k` operations, if the program has them. -/
def run (prog : Program) (h : Hart C) : ℕ → Option (Hart C)
  | 0 => some h
  | k + 1 => (run prog h k).bind (step P prog)

end Hart

end Rv32
