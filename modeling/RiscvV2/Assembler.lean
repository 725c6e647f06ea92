import RiscvV2.BitFields
import RiscvV2.Execute

/-!
# The firmware's assembler (`simple_test.c`)

The board self-test assembles its program by hand, with one encoder for each format. The
encoders are written with shifts and masks, the decoder with concatenations; that the decoder
gives back what was encoded is shown in two steps: an encoder produces the format of the ISA,
and the decoder reads that format.

Arguments are 32-bit words, as in the source. An `int32_t` immediate is the word of its two's
complement.

Only arguments in range are encoded faithfully, since the masks cut everything else off
silently. `Call.InRange` collects the bounds, one for each argument of each encoder. The result
is stated for a call as a value, so that it covers all encoders at once and the later proof that
a program decodes to what was meant has one lemma to use instead of seven.
-/

namespace RiscvV2

open BitFields
open Rv32 (Reg)

namespace Firmware

/-! ## Encoders -/

/-- `OP_R` -/
def opR : Word := 0x33#32
/-- `OP_I` -/
def opI : Word := 0x13#32
/-- `OP_LOAD` -/
def opLoad : Word := 0x03#32
/-- `OP_STORE` -/
def opStore : Word := 0x23#32
/-- `OP_BR` -/
def opBr : Word := 0x63#32
/-- `OP_LUI` -/
def opLui : Word := 0x37#32
/-- `OP_AUIPC` -/
def opAuipc : Word := 0x17#32
/-- `OP_JAL` -/
def opJal : Word := 0x6f#32
/-- `OP_JALR` -/
def opJalr : Word := 0x67#32

/-- `enc_r`: the register-register format. -/
def encR (f7 rs2 rs1 f3 rd : Word) : Word :=
  f7 <<< 25 ||| rs2 <<< 20 ||| rs1 <<< 15 ||| f3 <<< 12 ||| rd <<< 7 ||| opR

/-- `enc_i`: the 12-bit immediate format. -/
def encI (imm rs1 f3 rd op : Word) : Word :=
  (imm &&& 0xfff#32) <<< 20 ||| rs1 <<< 15 ||| f3 <<< 12 ||| rd <<< 7 ||| op

/-- `enc_ish`: a shift by a constant, with `funct7` above the shift amount. -/
def encIsh (f7 shamt rs1 f3 rd : Word) : Word :=
  f7 <<< 25 ||| (shamt &&& 0x1f#32) <<< 20 ||| rs1 <<< 15 ||| f3 <<< 12 ||| rd <<< 7 ||| opI

/-- `enc_s`: the store format. -/
def encS (imm rs2 rs1 f3 : Word) : Word :=
  let i := imm &&& 0xfff#32
  (i >>> 5 &&& 0x7f#32) <<< 25 ||| rs2 <<< 20 ||| rs1 <<< 15 ||| f3 <<< 12 |||
    (i &&& 0x1f#32) <<< 7 ||| opStore

/-- `enc_b`: the branch format. -/
def encB (imm rs2 rs1 f3 : Word) : Word :=
  let i := imm &&& 0x1fff#32
  let b12 := i >>> 12 &&& 1#32
  let b11 := i >>> 11 &&& 1#32
  let b10_5 := i >>> 5 &&& 0x3f#32
  let b4_1 := i >>> 1 &&& 0xf#32
  b12 <<< 31 ||| b10_5 <<< 25 ||| rs2 <<< 20 ||| rs1 <<< 15 ||| f3 <<< 12 ||| b4_1 <<< 8 |||
    b11 <<< 7 ||| opBr

/-- `enc_u`: the upper-immediate format. -/
def encU (imm20 rd op : Word) : Word :=
  (imm20 &&& 0xfffff#32) <<< 12 ||| rd <<< 7 ||| op

/-- `enc_j`: the jump format. -/
def encJ (imm rd : Word) : Word :=
  let i := imm &&& 0x1fffff#32
  let b20 := i >>> 20 &&& 1#32
  let b10_1 := i >>> 1 &&& 0x3ff#32
  let b11 := i >>> 11 &&& 1#32
  let b19_12 := i >>> 12 &&& 0xff#32
  b20 <<< 31 ||| b10_1 <<< 21 ||| b11 <<< 20 ||| b19_12 <<< 12 ||| rd <<< 7 ||| opJal

/-! ## Encoders and formats

First step: the shifts and masks of each encoder build the concatenation of the format. -/

section formats

variable (f7 : BitVec 7) (shamt rs2 rs1 rd : Reg) (f3 : BitVec 3) (imm : BitVec 12)
  (upper : BitVec 20) (op : BitVec 7)

theorem encR_eq :
    encR (f7.setWidth 32) (rs2.setWidth 32) (rs1.setWidth 32) (f3.setWidth 32)
        (rd.setWidth 32) = Rv32.rType f7 rs2 rs1 f3 rd opcodeOp := by
  rw [← BitVec.setWidth_eq (Rv32.rType f7 rs2 rs1 f3 rd opcodeOp), Rv32.rType]
  simp only [BitVec.setWidth_append_eq_shiftLeft_setWidth_or, BitVec.shiftLeft_or_distrib,
    ← BitVec.shiftLeft_add]
  rfl

theorem encI_eq :
    encI (imm.signExtend 32) (rs1.setWidth 32) (f3.setWidth 32) (rd.setWidth 32)
        (op.setWidth 32) = Rv32.iType imm rs1 f3 rd op := by
  have hmask : 0xfff#32 = lowMask 32 12 := rfl
  rw [encI, hmask, signExtend_and_lowMask (by decide),
    ← BitVec.setWidth_eq (Rv32.iType imm rs1 f3 rd op), Rv32.iType]
  simp only [BitVec.setWidth_append_eq_shiftLeft_setWidth_or, BitVec.shiftLeft_or_distrib,
    ← BitVec.shiftLeft_add]

theorem encIsh_eq :
    encIsh (f7.setWidth 32) (shamt.setWidth 32) (rs1.setWidth 32) (f3.setWidth 32)
        (rd.setWidth 32) = Rv32.rType f7 shamt rs1 f3 rd opcodeOpImm := by
  have hmask : 0x1f#32 = lowMask 32 5 := rfl
  have hfield : (shamt.setWidth 32).setWidth 5 = shamt := by simp
  rw [encIsh, hmask, and_lowMask, hfield,
    ← BitVec.setWidth_eq (Rv32.rType f7 shamt rs1 f3 rd opcodeOpImm), Rv32.rType]
  simp only [BitVec.setWidth_append_eq_shiftLeft_setWidth_or, BitVec.shiftLeft_or_distrib,
    ← BitVec.shiftLeft_add]
  rfl

theorem encS_eq :
    encS (imm.signExtend 32) (rs2.setWidth 32) (rs1.setWidth 32) (f3.setWidth 32) =
      Rv32.sType imm rs2 rs1 f3 opcodeStore := by
  have hmask : 0xfff#32 = lowMask 32 12 := rfl
  have hmask7 : 0x7f#32 = lowMask 32 7 := rfl
  have hmask5 : 0x1f#32 = lowMask 32 5 := rfl
  have hlow : (imm.setWidth 32).setWidth 5 = imm.extractLsb' 0 5 := by
    rw [BitVec.setWidth_setWidth_of_le _ (by decide), BitVec.setWidth_eq_extractLsb' (by decide)]
  rw [encS, hmask, hmask7, hmask5, signExtend_and_lowMask (by decide)]
  simp only [ushiftRight_and_lowMask]
  rw [and_lowMask, hlow, BitVec.extractLsb'_setWidth_of_le (by decide),
    ← BitVec.setWidth_eq (Rv32.sType imm rs2 rs1 f3 opcodeStore), Rv32.sType]
  simp only [BitVec.setWidth_append_eq_shiftLeft_setWidth_or, BitVec.shiftLeft_or_distrib,
    ← BitVec.shiftLeft_add]
  rfl

theorem encB_eq :
    encB ((imm ++ 0#1).signExtend 32) (rs2.setWidth 32) (rs1.setWidth 32) (f3.setWidth 32) =
      Rv32.bType imm rs2 rs1 f3 opcodeBranch := by
  have hmask : 0x1fff#32 = lowMask 32 13 := rfl
  have hmask1 : 1#32 = lowMask 32 1 := rfl
  have hmask6 : 0x3f#32 = lowMask 32 6 := rfl
  have hmask4 : 0xf#32 = lowMask 32 4 := rfl
  rw [encB, hmask, hmask1, hmask6, hmask4, signExtend_and_lowMask (by decide)]
  simp (disch := decide) only [ushiftRight_and_lowMask, BitVec.extractLsb'_setWidth_of_le,
    BitVec.extractLsb'_append_eq_of_le, Nat.reduceSub]
  rw [← BitVec.setWidth_eq (Rv32.bType imm rs2 rs1 f3 opcodeBranch), Rv32.bType]
  simp only [BitVec.setWidth_append_eq_shiftLeft_setWidth_or, BitVec.shiftLeft_or_distrib,
    ← BitVec.shiftLeft_add]
  rfl

theorem encU_eq :
    encU (upper.setWidth 32) (rd.setWidth 32) (op.setWidth 32) = Rv32.uType upper rd op := by
  have hmask : 0xfffff#32 = lowMask 32 20 := rfl
  have hfield : (upper.setWidth 32).setWidth 20 = upper := by simp
  rw [encU, hmask, and_lowMask, hfield, ← BitVec.setWidth_eq (Rv32.uType upper rd op),
    Rv32.uType]
  simp only [BitVec.setWidth_append_eq_shiftLeft_setWidth_or, BitVec.shiftLeft_or_distrib,
    ← BitVec.shiftLeft_add]

theorem encJ_eq :
    encJ ((upper ++ 0#1).signExtend 32) (rd.setWidth 32) = Rv32.jType upper rd opcodeJal := by
  have hmask : 0x1fffff#32 = lowMask 32 21 := rfl
  have hmask1 : 1#32 = lowMask 32 1 := rfl
  have hmask10 : 0x3ff#32 = lowMask 32 10 := rfl
  have hmask8 : 0xff#32 = lowMask 32 8 := rfl
  rw [encJ, hmask, hmask1, hmask10, hmask8, signExtend_and_lowMask (by decide)]
  simp (disch := decide) only [ushiftRight_and_lowMask, BitVec.extractLsb'_setWidth_of_le,
    BitVec.extractLsb'_append_eq_of_le, Nat.reduceSub]
  rw [← BitVec.setWidth_eq (Rv32.jType upper rd opcodeJal), Rv32.jType]
  simp only [BitVec.setWidth_append_eq_shiftLeft_setWidth_or, BitVec.shiftLeft_or_distrib,
    ← BitVec.shiftLeft_add]
  rfl

end formats

/-! ## Calls of the encoders

A call is kept as data, with the arguments in the order of the source, because the statement has
to say for each of them where it reappears in the decoder's outputs. `enc_i` and `enc_u` are
called with several opcodes, which form types of their own. -/

/-- The opcodes `enc_i` is called with. -/
inductive IOpcode
  | opI | opLoad | opJalr
  deriving DecidableEq, Repr

/-- The opcode itself. -/
def IOpcode.word : IOpcode → Word
  | .opI => Firmware.opI
  | .opLoad => Firmware.opLoad
  | .opJalr => Firmware.opJalr

/-- The opcodes of the upper-immediate format. -/
inductive UOpcode
  | opLui | opAuipc
  deriving DecidableEq, Repr

/-- The opcode itself. -/
def UOpcode.word : UOpcode → Word
  | .opLui => Firmware.opLui
  | .opAuipc => Firmware.opAuipc

/-- A call of one of the encoders, with its arguments in the order of the source. -/
inductive Call
  | encR (f7 rs2 rs1 f3 rd : Word)
  | encI (imm rs1 f3 rd : Word) (op : IOpcode)
  | encIsh (f7 shamt rs1 f3 rd : Word)
  | encS (imm rs2 rs1 f3 : Word)
  | encB (imm rs2 rs1 f3 : Word)
  | encU (imm20 rd : Word) (op : UOpcode)
  | encJ (imm rd : Word)
  deriving DecidableEq, Repr

namespace Call

/-- The instruction word it returns. -/
def word : Call → Word
  | .encR f7 rs2 rs1 f3 rd => Firmware.encR f7 rs2 rs1 f3 rd
  | .encI imm rs1 f3 rd op => Firmware.encI imm rs1 f3 rd op.word
  | .encIsh f7 shamt rs1 f3 rd => Firmware.encIsh f7 shamt rs1 f3 rd
  | .encS imm rs2 rs1 f3 => Firmware.encS imm rs2 rs1 f3
  | .encB imm rs2 rs1 f3 => Firmware.encB imm rs2 rs1 f3
  | .encU imm20 rd op => Firmware.encU imm20 rd op.word
  | .encJ imm rd => Firmware.encJ imm rd

/-- Every argument fits into its field. Offsets of branches and jumps are even. -/
def InRange : Call → Prop
  | .encR f7 rs2 rs1 f3 rd =>
    FitsUnsigned 7 f7 ∧ FitsUnsigned 5 rs2 ∧ FitsUnsigned 5 rs1 ∧ FitsUnsigned 3 f3 ∧
      FitsUnsigned 5 rd
  | .encI imm rs1 f3 rd _ =>
    FitsSigned 12 imm ∧ FitsUnsigned 5 rs1 ∧ FitsUnsigned 3 f3 ∧ FitsUnsigned 5 rd
  | .encIsh f7 shamt rs1 f3 rd =>
    FitsUnsigned 7 f7 ∧ FitsUnsigned 5 shamt ∧ FitsUnsigned 5 rs1 ∧ FitsUnsigned 3 f3 ∧
      FitsUnsigned 5 rd
  | .encS imm rs2 rs1 f3 =>
    FitsSigned 12 imm ∧ FitsUnsigned 5 rs2 ∧ FitsUnsigned 5 rs1 ∧ FitsUnsigned 3 f3
  | .encB imm rs2 rs1 f3 =>
    (FitsSigned 13 imm ∧ imm.toInt % 2 = 0) ∧ FitsUnsigned 5 rs2 ∧ FitsUnsigned 5 rs1 ∧
      FitsUnsigned 3 f3
  | .encU imm20 rd _ => FitsUnsigned 20 imm20 ∧ FitsUnsigned 5 rd
  | .encJ imm rd => (FitsSigned 21 imm ∧ imm.toInt % 2 = 0) ∧ FitsUnsigned 5 rd

instance : ∀ call : Call, Decidable call.InRange
  | .encR .. | .encI .. | .encIsh .. | .encS .. | .encB .. | .encU .. | .encJ .. =>
    inferInstanceAs (Decidable (_ ∧ _))

/-! ### The fields of a format

A format has some of the fields and not others; where it has none, nothing is claimed. -/

/-- The destination register. -/
def rd : Call → Option Word
  | .encR _ _ _ _ rd | .encI _ _ _ rd _ | .encIsh _ _ _ _ rd | .encU _ rd _ | .encJ _ rd => some rd
  | .encS .. | .encB .. => none

/-- The first source register. -/
def rs1 : Call → Option Word
  | .encR _ _ rs1 _ _ | .encI _ rs1 _ _ _ | .encIsh _ _ rs1 _ _ | .encS _ _ rs1 _
  | .encB _ _ rs1 _ => some rs1
  | .encU .. | .encJ .. => none

/-- The second source register. -/
def rs2 : Call → Option Word
  | .encR _ rs2 _ _ _ | .encS _ rs2 _ _ | .encB _ rs2 _ _ => some rs2
  | .encI .. | .encIsh .. | .encU .. | .encJ .. => none

/-- The field `funct3`. -/
def funct3 : Call → Option Word
  | .encR _ _ _ f3 _ | .encI _ _ f3 _ _ | .encIsh _ _ _ f3 _ | .encS _ _ _ f3
  | .encB _ _ _ f3 => some f3
  | .encU .. | .encJ .. => none

/-- The field `funct7`. -/
def funct7 : Call → Option Word
  | .encR f7 _ _ _ _ | .encIsh f7 _ _ _ _ => some f7
  | .encI .. | .encS .. | .encB .. | .encU .. | .encJ .. => none

/-- The immediate operand; the upper immediate stands above twelve zeros. -/
def imm : Call → Option Word
  | .encI imm _ _ _ _ | .encS imm _ _ _ | .encB imm _ _ _ | .encJ imm _ => some imm
  | .encU imm20 _ _ => some (imm20 <<< 12)
  | .encR .. | .encIsh .. => none

/-- The shift amount, the low part of the immediate. -/
def shamt : Call → Option Word
  | .encIsh _ shamt _ _ _ => some shamt
  | _ => none

end Call

/-- The control outputs that depend on the opcode alone. -/
structure ClassCtrl where
  useRs1 : Bool := false
  useRs2 : Bool := false
  regWrite : Bool := false
  memRead : Bool := false
  memWrite : Bool := false
  jal : Bool := false
  jalr : Bool := false
  srcAPc : Bool := false
  srcBImm : Bool := false
  deriving DecidableEq, Repr

/-- The decoder's outputs of this kind. -/
def ClassCtrl.ofCtrl (d : Ctrl) : ClassCtrl where
  useRs1 := d.useRs1
  useRs2 := d.useRs2
  regWrite := d.regWrite
  memRead := d.memRead
  memWrite := d.memWrite
  jal := d.jal
  jalr := d.jalr
  srcAPc := d.srcAPc
  srcBImm := d.srcBImm

/-- What an instruction of the encoded class needs. -/
def Call.classCtrl : Call → ClassCtrl
  | .encR .. => { useRs1 := true, useRs2 := true, regWrite := true }
  | .encI _ _ _ _ .opI | .encIsh .. => { useRs1 := true, srcBImm := true, regWrite := true }
  | .encI _ _ _ _ .opLoad =>
    { useRs1 := true, srcBImm := true, regWrite := true, memRead := true }
  -- the target adder of `JALR` takes the immediate by itself
  | .encI _ _ _ _ .opJalr => { useRs1 := true, regWrite := true, jalr := true }
  | .encS .. => { useRs1 := true, useRs2 := true, srcBImm := true, memWrite := true }
  | .encB .. => { useRs1 := true, useRs2 := true }
  | .encU _ _ .opLui => { srcBImm := true, regWrite := true }
  | .encU _ _ .opAuipc => { srcAPc := true, srcBImm := true, regWrite := true }
  | .encJ .. => { regWrite := true, jal := true }

/-- A decoder output shows the encoded value, where the format has the field. -/
def Shows {w : ℕ} (field : Option Word) (x : BitVec w) : Prop := ∀ v ∈ field, x.setWidth 32 = v

theorem shows_none {w : ℕ} (x : BitVec w) : Shows none x := by
  rintro v ⟨⟩

theorem shows_some {w : ℕ} (x : BitVec w) : Shows (some (x.setWidth 32)) x := by
  rintro v ⟨⟩
  rfl

theorem shows_word (x : Word) : Shows (some x) x := by
  rintro v ⟨⟩
  exact BitVec.setWidth_eq _

/-- The decoder outputs are those of the encoded instruction. -/
structure Call.DecodedAs (call : Call) (d : Decoded) : Prop where
  rd : Shows call.rd d.ctrl.rd
  rs1 : Shows call.rs1 d.ctrl.rs1
  rs2 : Shows call.rs2 d.ctrl.rs2
  funct3 : Shows call.funct3 d.ctrl.funct3
  funct7 : Shows call.funct7 d.ctrl.funct7
  imm : Shows call.imm d.imm
  shamt : Shows call.shamt (d.imm.extractLsb' 0 5)
  classCtrl : ClassCtrl.ofCtrl d.ctrl = call.classCtrl

/-! ## The decoder on each encoder -/

section decoded

variable (f7 : BitVec 7) (shamt rs2 rs1 rd : Reg) (f3 : BitVec 3) (imm : BitVec 12)
  (upper : BitVec 20)

theorem decodedAs_encR :
    (Call.encR (f7.setWidth 32) (rs2.setWidth 32) (rs1.setWidth 32) (f3.setWidth 32)
      (rd.setWidth 32)).DecodedAs (riscvDecode (Rv32.rType f7 rs2 rs1 f3 rd opcodeOp)) := by
  rw [riscvDecode_op, decodeFields_rType]
  exact
    { rd := shows_some rd
      rs1 := shows_some rs1
      rs2 := shows_some rs2
      funct3 := shows_some f3
      funct7 := shows_some f7
      imm := shows_none _
      shamt := shows_none _
      classCtrl := rfl }

/-- The instructions with a 12-bit immediate differ in their controls only. -/
theorem decodedAs_iType (op : IOpcode) {d : Decoded} (hrd : d.ctrl.rd = rd)
    (hrs1 : d.ctrl.rs1 = rs1) (hfunct3 : d.ctrl.funct3 = f3) (himm : d.imm = imm.signExtend 32)
    (hclass : ClassCtrl.ofCtrl d.ctrl = (Call.encI 0 0 0 0 op).classCtrl) :
    (Call.encI (imm.signExtend 32) (rs1.setWidth 32) (f3.setWidth 32) (rd.setWidth 32)
      op).DecodedAs d := by
  subst hrd hrs1 hfunct3
  exact
    { rd := shows_some _
      rs1 := shows_some _
      rs2 := shows_none _
      funct3 := shows_some _
      funct7 := shows_none _
      imm := himm ▸ shows_word _
      shamt := shows_none _
      classCtrl := by rw [hclass]; cases op <;> rfl }

theorem decodedAs_encI (op : IOpcode) :
    (Call.encI (imm.signExtend 32) (rs1.setWidth 32) (f3.setWidth 32) (rd.setWidth 32)
      op).DecodedAs (riscvDecode (Rv32.iType imm rs1 f3 rd (op.word.setWidth 7))) := by
  cases op with
  | opI =>
    change Call.DecodedAs _ (riscvDecode (Rv32.iType imm rs1 f3 rd opcodeOpImm))
    rw [riscvDecode_opImm, decodeFields_iType]
    exact decodedAs_iType rs1 rd f3 imm .opI rfl rfl rfl rfl rfl
  | opLoad =>
    change Call.DecodedAs _ (riscvDecode (Rv32.iType imm rs1 f3 rd opcodeLoad))
    rw [riscvDecode_load, decodeFields_iType]
    exact decodedAs_iType rs1 rd f3 imm .opLoad rfl rfl rfl rfl rfl
  | opJalr =>
    change Call.DecodedAs _ (riscvDecode (Rv32.iType imm rs1 f3 rd opcodeJalr))
    rw [riscvDecode_jalr, decodeFields_iType]
    exact decodedAs_iType rs1 rd f3 imm .opJalr rfl rfl rfl rfl rfl

theorem decodedAs_encIsh :
    (Call.encIsh (f7.setWidth 32) (shamt.setWidth 32) (rs1.setWidth 32) (f3.setWidth 32)
      (rd.setWidth 32)).DecodedAs (riscvDecode (Rv32.rType f7 shamt rs1 f3 rd opcodeOpImm)) := by
  rw [riscvDecode_opImm_shift, decodeFields_rType]
  have hshamt : ((f7 ++ shamt).signExtend 32).extractLsb' 0 5 = shamt := extract_shamt f7 shamt
  exact
    { rd := shows_some rd
      rs1 := shows_some rs1
      rs2 := shows_none _
      funct3 := shows_some f3
      funct7 := shows_some f7
      imm := shows_none _
      shamt := by rw [hshamt]; exact shows_some shamt
      classCtrl := rfl }

theorem decodedAs_encS :
    (Call.encS (imm.signExtend 32) (rs2.setWidth 32) (rs1.setWidth 32)
      (f3.setWidth 32)).DecodedAs (riscvDecode (Rv32.sType imm rs2 rs1 f3 opcodeStore)) := by
  rw [riscvDecode_store, decodeFields_sType]
  exact
    { rd := shows_none _
      rs1 := shows_some rs1
      rs2 := shows_some rs2
      funct3 := shows_some f3
      funct7 := shows_none _
      imm := shows_word _
      shamt := shows_none _
      classCtrl := rfl }

theorem decodedAs_encB :
    (Call.encB ((imm ++ 0#1).signExtend 32) (rs2.setWidth 32) (rs1.setWidth 32)
      (f3.setWidth 32)).DecodedAs (riscvDecode (Rv32.bType imm rs2 rs1 f3 opcodeBranch)) := by
  obtain ⟨hfunct3, hrs1, hrs2⟩ := decodeFields_bType opcodeBranch rs2 rs1 f3 imm
  rw [riscvDecode_branch]
  exact
    { rd := shows_none _
      rs1 := hrs1.symm ▸ shows_some rs1
      rs2 := hrs2.symm ▸ shows_some rs2
      funct3 := hfunct3.symm ▸ shows_some f3
      funct7 := shows_none _
      imm := shows_word _
      shamt := shows_none _
      classCtrl := rfl }

theorem decodedAs_uType (op : UOpcode) {d : Decoded} (hrd : d.ctrl.rd = rd)
    (himm : d.imm = upper ++ 0#12)
    (hclass : ClassCtrl.ofCtrl d.ctrl = (Call.encU 0 0 op).classCtrl) :
    (Call.encU (upper.setWidth 32) (rd.setWidth 32) op).DecodedAs d := by
  subst hrd
  have hshift : d.imm = upper.setWidth 32 <<< 12 := himm.trans (append_zeros upper)
  exact
    { rd := shows_some _
      rs1 := shows_none _
      rs2 := shows_none _
      funct3 := shows_none _
      funct7 := shows_none _
      imm := hshift ▸ shows_word _
      shamt := shows_none _
      classCtrl := by rw [hclass]; cases op <;> rfl }

theorem decodedAs_encU (op : UOpcode) :
    (Call.encU (upper.setWidth 32) (rd.setWidth 32) op).DecodedAs
      (riscvDecode (Rv32.uType upper rd (op.word.setWidth 7))) := by
  cases op with
  | opLui =>
    change Call.DecodedAs _ (riscvDecode (Rv32.uType upper rd opcodeLui))
    rw [riscvDecode_lui]
    exact decodedAs_uType rd upper .opLui (decodeFields_uType opcodeLui rd upper) rfl rfl
  | opAuipc =>
    change Call.DecodedAs _ (riscvDecode (Rv32.uType upper rd opcodeAuipc))
    rw [riscvDecode_auipc]
    exact decodedAs_uType rd upper .opAuipc (decodeFields_uType opcodeAuipc rd upper) rfl rfl

theorem decodedAs_encJ :
    (Call.encJ ((upper ++ 0#1).signExtend 32) (rd.setWidth 32)).DecodedAs
      (riscvDecode (Rv32.jType upper rd opcodeJal)) := by
  have hrd := decodeFields_jType opcodeJal rd upper
  rw [riscvDecode_jal]
  exact
    { rd := hrd.symm ▸ shows_some rd
      rs1 := shows_none _
      rs2 := shows_none _
      funct3 := shows_none _
      funct7 := shows_none _
      imm := shows_word _
      shamt := shows_none _
      classCtrl := rfl }

end decoded

/-- **The decoder inverts the assembler.** -/
theorem decode_inverts_assembler (call : Call) (h : call.InRange) :
    call.DecodedAs (riscvDecode call.word) := by
  cases call with
  | encR f7 rs2 rs1 f3 rd =>
    obtain ⟨hf7, hrs2, hrs1, hf3, hrd⟩ := h
    obtain ⟨f7, rfl⟩ := hf7.exists_setWidth
    obtain ⟨rs2, rfl⟩ := hrs2.exists_setWidth
    obtain ⟨rs1, rfl⟩ := hrs1.exists_setWidth
    obtain ⟨f3, rfl⟩ := hf3.exists_setWidth
    obtain ⟨rd, rfl⟩ := hrd.exists_setWidth
    rw [Call.word, encR_eq]
    exact decodedAs_encR f7 rs2 rs1 rd f3
  | encI imm rs1 f3 rd op =>
    obtain ⟨himm, hrs1, hf3, hrd⟩ := h
    obtain ⟨imm, rfl⟩ := himm.exists_signExtend (by decide) (by decide)
    obtain ⟨rs1, rfl⟩ := hrs1.exists_setWidth
    obtain ⟨f3, rfl⟩ := hf3.exists_setWidth
    obtain ⟨rd, rfl⟩ := hrd.exists_setWidth
    have hop : (op.word.setWidth 7).setWidth 32 = op.word := by cases op <;> rfl
    rw [Call.word, ← hop, encI_eq]
    exact decodedAs_encI rs1 rd f3 imm op
  | encIsh f7 shamt rs1 f3 rd =>
    obtain ⟨hf7, hshamt, hrs1, hf3, hrd⟩ := h
    obtain ⟨f7, rfl⟩ := hf7.exists_setWidth
    obtain ⟨shamt, rfl⟩ := hshamt.exists_setWidth
    obtain ⟨rs1, rfl⟩ := hrs1.exists_setWidth
    obtain ⟨f3, rfl⟩ := hf3.exists_setWidth
    obtain ⟨rd, rfl⟩ := hrd.exists_setWidth
    rw [Call.word, encIsh_eq]
    exact decodedAs_encIsh f7 shamt rs1 rd f3
  | encS imm rs2 rs1 f3 =>
    obtain ⟨himm, hrs2, hrs1, hf3⟩ := h
    obtain ⟨imm, rfl⟩ := himm.exists_signExtend (by decide) (by decide)
    obtain ⟨rs2, rfl⟩ := hrs2.exists_setWidth
    obtain ⟨rs1, rfl⟩ := hrs1.exists_setWidth
    obtain ⟨f3, rfl⟩ := hf3.exists_setWidth
    rw [Call.word, encS_eq]
    exact decodedAs_encS rs2 rs1 f3 imm
  | encB imm rs2 rs1 f3 =>
    obtain ⟨⟨himm, heven⟩, hrs2, hrs1, hf3⟩ := h
    obtain ⟨imm, rfl⟩ := himm.exists_signExtend_even (by decide) heven
    obtain ⟨rs2, rfl⟩ := hrs2.exists_setWidth
    obtain ⟨rs1, rfl⟩ := hrs1.exists_setWidth
    obtain ⟨f3, rfl⟩ := hf3.exists_setWidth
    rw [Call.word, encB_eq]
    exact decodedAs_encB rs2 rs1 f3 imm
  | encU imm20 rd op =>
    obtain ⟨himm, hrd⟩ := h
    obtain ⟨upper, rfl⟩ := himm.exists_setWidth
    obtain ⟨rd, rfl⟩ := hrd.exists_setWidth
    have hop : (op.word.setWidth 7).setWidth 32 = op.word := by cases op <;> rfl
    rw [Call.word, ← hop, encU_eq]
    exact decodedAs_encU rd upper op
  | encJ imm rd =>
    obtain ⟨⟨himm, heven⟩, hrd⟩ := h
    obtain ⟨upper, rfl⟩ := himm.exists_signExtend_even (by decide) heven
    obtain ⟨rd, rfl⟩ := hrd.exists_setWidth
    rw [Call.word, encJ_eq]
    exact decodedAs_encJ rd upper

/-- `BLT x1, x2, -8` -/
theorem decode_inverts_assembler_blt :
    (Call.encB (-8) 2 1 4).InRange ∧
      (riscvDecode (Call.encB (-8) 2 1 4).word).imm = -8 := by
  have hrange : (Call.encB (-8) 2 1 4).InRange := by decide
  exact ⟨hrange, (decode_inverts_assembler _ hrange).imm _ rfl⟩

end Firmware

end RiscvV2
