import RiscvV2.Pkg

/-!
# Combinational datapath blocks and the register file

`riscv_alu.sv`, `riscv_regfile.sv` and `riscv_lsu.sv`. The register file is a function from
register numbers to words; its clocked part is `regfileNext`.

These blocks have no state machine of their own, so each is a function of its ports, and the
equations of the source can be read off the definitions case by case. What the rest of the
development uses of them is little: that a read port sees a value that is being written back in
the same cycle, that `x0` stays zero, and that a write with byte enables replaces the enabled
bytes and keeps the others. The byte enables have their definitions here as well, since the
block RAMs, the control registers and the memory models of the test bench all apply them in the
same way.
-/

namespace RiscvV2

/-! ## ALU (`riscv_alu.sv`) -/

/-- `riscv_alu`. The RV32M operations are completed by the multicycle units of the core and
read as zero here. -/
def riscvAlu (aluOp : AluOp) (a b : Word) : Word :=
  match aluOp with
  | .add => a + b
  | .sub => a - b
  | .slt => if a.slt b then 1#32 else 0#32
  | .sltu => if a.ult b then 1#32 else 0#32
  | .xor => a ^^^ b
  | .or => a ||| b
  | .and => a &&& b
  | .sll => a <<< b.extractLsb' 0 5
  | .srl => a >>> b.extractLsb' 0 5
  | .sra => a.sshiftRight' (b.extractLsb' 0 5)
  | .mul | .mulh | .mulhsu | .mulhu | .div | .divu | .rem | .remu => 0#32
  | .copyB => b

/-! ## Register file (`riscv_regfile.sv`)

The write port is clocked and the read ports are not. A read in the cycle of a write returns the
new value, which is why an instruction in ID needs no forwarding path from WB. -/

/-- The 32 integer registers. -/
abbrev Regs := BitVec 5 → Word

/-- The registers out of reset. -/
def Regs.zero : Regs := fun _ => 0#32

/-- The registers after a clock edge without reset. -/
def regfileNext (regs : Regs) (we : Bool) (waddr : BitVec 5) (wdata : Word) : Regs := fun r =>
  if r = 0#5 then 0#32
  else if we && waddr != 0#5 && waddr == r then wdata
  else regs r

/-- A read port: `x0` is zero, and a value being written back in the same cycle is seen. -/
def regfileRead (regs : Regs) (we : Bool) (waddr : BitVec 5) (wdata : Word)
    (raddr : BitVec 5) : Word :=
  if raddr = 0#5 then 0#32
  else if we && waddr != 0#5 && waddr == raddr then wdata
  else regs raddr

/-- The bypass makes a read port show what the register holds after the edge. -/
theorem regfileRead_eq_next (regs : Regs) (we : Bool) (waddr : BitVec 5) (wdata : Word)
    (raddr : BitVec 5) :
    regfileRead regs we waddr wdata raddr = regfileNext regs we waddr wdata raddr := rfl

@[simp] theorem regfileNext_zero (regs : Regs) (we : Bool) (waddr : BitVec 5) (wdata : Word) :
    regfileNext regs we waddr wdata 0#5 = 0#32 := rfl

theorem regfileNext_of_not_we {regs : Regs} (h0 : regs 0#5 = 0#32) (waddr : BitVec 5)
    (wdata : Word) : regfileNext regs false waddr wdata = regs := by
  funext r
  by_cases hr : r = 0#5
  · subst hr
    rw [regfileNext_zero, h0]
  · simp [regfileNext, hr]

/-! ## Load/store formatting (`riscv_lsu.sv`)

Memory is read and written in whole words. A store replicates its bytes into every lane that
could be meant and enables the lanes it writes; a load picks its bytes from the word and extends
them. Both look at the two low address bits only. -/

/-- `write_data`: the stored bytes replicated and shifted to their lanes. -/
def lsuWriteData (memSize addrLo : BitVec 2) (writeEn : Bool) (storeData : Word) : Word :=
  if !writeEn then 0#32
  else match memSize with
  | 0#2 =>
    let b := storeData.extractLsb' 0 8
    (b ++ b ++ b ++ b) <<< (8 * addrLo.toNat)
  | 1#2 =>
    let h := storeData.extractLsb' 0 16
    (h ++ h) <<< (16 * (addrLo.extractLsb' 1 1).toNat)
  | _ => storeData

/-- `wstrb`: the byte lanes a store writes. -/
def lsuWstrb (memSize addrLo : BitVec 2) (writeEn : Bool) : BitVec 4 :=
  if !writeEn then 0#4
  else match memSize with
  | 0#2 => 0b0001#4 <<< addrLo
  | 1#2 => if addrLo.getLsbD 1 then 0b1100#4 else 0b0011#4
  | _ => 0b1111#4

/-- Extension of a loaded field to a word. -/
def lsuExtend (memUnsigned : Bool) {w : ℕ} (x : BitVec w) : Word :=
  if memUnsigned then x.setWidth 32 else x.signExtend 32

/-- `load_data`: the addressed byte or half of the memory word, extended. -/
def lsuLoadData (memSize : BitVec 2) (memUnsigned : Bool) (addrLo : BitVec 2)
    (readData : Word) : Word :=
  match memSize with
  | 0#2 =>
    match addrLo with
    | 0#2 => lsuExtend memUnsigned (readData.extractLsb' 0 8)
    | 1#2 => lsuExtend memUnsigned (readData.extractLsb' 8 8)
    | 2#2 => lsuExtend memUnsigned (readData.extractLsb' 16 8)
    | _ => lsuExtend memUnsigned (readData.extractLsb' 24 8)
  | 1#2 =>
    if addrLo.getLsbD 1 then lsuExtend memUnsigned (readData.extractLsb' 16 16)
    else lsuExtend memUnsigned (readData.extractLsb' 0 16)
  | _ => readData

/-! ## Byte enables -/

/-- The bits of the enabled bytes. -/
def strobeMask (wstrb : BitVec 4) : Word :=
  let lane (k : ℕ) : BitVec 8 := if wstrb.getLsbD k then 0xff#8 else 0x00#8
  lane 3 ++ lane 2 ++ lane 1 ++ lane 0

/-- A word after a write with byte enables, as memories and registers apply it. -/
def strobedWord (old new : Word) (wstrb : BitVec 4) : Word :=
  (old &&& ~~~(strobeMask wstrb)) ||| (new &&& strobeMask wstrb)

/-- Writing the same bytes again changes nothing. -/
theorem strobedWord_idem (old new : Word) (wstrb : BitVec 4) :
    strobedWord (strobedWord old new wstrb) new wstrb = strobedWord old new wstrb := by
  simp only [strobedWord]
  generalize strobeMask wstrb = m
  ext k hk
  simp only [BitVec.getElem_or, BitVec.getElem_and, BitVec.getElem_not]
  cases m[k] <;> simp

end RiscvV2
