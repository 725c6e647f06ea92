import RiscvV2.Assembler
import RiscvV2.StraightLine

/-!
# Loading constants (`simple_test.c`)

`li` puts a 32-bit constant into a register with `lui` and `addi`. The low twelve bits are
added as a signed number, so the upper part is that of the difference; the difference wraps
around where the constant is within 2048 of the top.

The source gets the two parts with masks, a subtraction and a shift, and leaves out the
instruction of a part that is zero. The parts are first rewritten as bit fields of the constant;
then the code is a list of two instructions or one, and running it is a fold over them.
-/

namespace RiscvV2

open BitFields
open Rv32 (Reg Instr Outcome)

namespace Firmware

/-! ## The source -/

/-- `ZERO` -/
def zero : Word := 0#32

/-- `emit`; the program buffer is a list. -/
def emit (prog : List Word) (w : Word) : List Word := prog ++ [w]

/-- `li`, with the sign adjustment of the low part as in the source. -/
def li (prog : List Word) (rd val : Word) : List Word :=
  let lo := val &&& 0xfff#32
  let lo := if lo &&& 0x800#32 ≠ 0#32 then lo - 0x1000#32 else lo
  let hi := (val - lo) >>> 12
  if hi = 0#32 then emit prog (encI lo zero 0x0#32 rd opI)
  else
    let prog := emit prog (encU hi rd opLui)
    if val &&& 0xfff#32 ≠ 0#32 then emit prog (encI lo rd 0x0#32 rd opI) else prog

/-! ## The instructions it emits

`hiPart` and `loPart` are defined so that the signed low part added to the upper part gives the
constant back, with all arithmetic modulo 2³². -/

section code

variable (rd : Reg) (val : Word)

/-- The low twelve bits of the constant. -/
def loPart : BitVec 12 := val.setWidth 12

/-- The upper part that goes with the signed low part. -/
def hiPart : BitVec 20 := (val - (loPart val).signExtend 32).extractLsb' 12 20

/-- The instructions: `addi` alone where the upper part is zero, and otherwise `lui`, with an
`addi` behind it where the low part is not. -/
def liCode : List Instr :=
  if hiPart val = 0#20 then [.arithImm .add rd 0#5 (loPart val)]
  else if loPart val = 0#12 then [.lui rd (hiPart val)]
  else [.lui rd (hiPart val), .arithImm .add rd rd (loPart val)]

/-- The two parts make up the constant. -/
theorem hiPart_add_loPart : (hiPart val ++ 0#12) + (loPart val).signExtend 32 = val := by
  have hsplit : (hiPart val ++ 0#12 : Word) = val - (loPart val).signExtend 32 :=
    sub_signExtend_low (m := 20) (w := 12) val
  rw [hsplit, BitVec.sub_add_cancel]

theorem and_mask_eq : val &&& 0xfff#32 = (loPart val).setWidth 32 :=
  and_lowMask (w := 12) val

/-- `lo` after the sign adjustment of the source. -/
theorem lo_eq :
    (if val &&& 0xfff#32 &&& 0x800#32 ≠ 0#32 then (val &&& 0xfff#32) - 0x1000#32
      else val &&& 0xfff#32) = (loPart val).signExtend 32 := by
  have hmsb : val &&& 0xfff#32 &&& 0x800#32 ≠ 0#32 ↔ (loPart val).msb = true := by
    have hbit : val &&& 0xfff#32 &&& 0x800#32 ≠ 0#32 ↔
        (val &&& 0xfff#32).getLsbD 11 = true := and_twoPow_ne_zero (k := 11)
    rw [hbit, and_mask_eq, BitVec.getLsbD_setWidth, BitVec.msb_eq_getLsbD_last]
    simp
  rw [signExtend_eq_sub (by decide), if_congr hmsb rfl rfl, and_mask_eq]
  rfl

theorem hi_eq :
    (val - (loPart val).signExtend 32) >>> 12 = (hiPart val).setWidth 32 :=
  ushiftRight_eq_setWidth (m := 20) (w := 12) _

theorem li_eq (prog : List Word) :
    li prog (rd.setWidth 32) val = prog ++ (liCode rd val).map Instr.encode := by
  have hlui : encU ((hiPart val).setWidth 32) (rd.setWidth 32) opLui =
      (Instr.lui rd (hiPart val)).encode := encU_eq rd (hiPart val) opcodeLui
  have haddi : ∀ rs1 : Reg, encI ((loPart val).signExtend 32) (rs1.setWidth 32) 0#32
      (rd.setWidth 32) opI = (Instr.arithImm .add rd rs1 (loPart val)).encode :=
    fun rs1 => encI_eq rs1 rd 0#3 (loPart val) opcodeOpImm
  have hhi : (hiPart val).setWidth 32 = 0#32 ↔ hiPart val = 0#20 :=
    setWidth_eq_zero_iff (by decide)
  have hlo : (loPart val).setWidth 32 = 0#32 ↔ loPart val = 0#12 :=
    setWidth_eq_zero_iff (by decide)
  have hzero : zero = (0#5).setWidth 32 := rfl
  rw [li]
  dsimp only
  rw [lo_eq, hi_eq, hlui, hzero, haddi rd, haddi 0#5, and_mask_eq]
  by_cases hh : hiPart val = 0#20
  · rw [if_pos (hhi.mpr hh), liCode, if_pos hh]
    rfl
  · rw [if_neg (mt hhi.mp hh), liCode, if_neg hh]
    by_cases hl : loPart val = 0#12
    · rw [if_neg (not_not.mpr (hlo.mpr hl)), if_pos hl]
      rfl
    · rw [if_pos (mt hlo.mp hl), if_neg hl]
      exact List.append_assoc prog _ _

/-! ## Running it -/

theorem liCode_length : (liCode rd val).length = 1 ∨ (liCode rd val).length = 2 := by
  rw [liCode]
  split_ifs
  · exact Or.inl rfl
  · exact Or.inl rfl
  · exact Or.inr rfl

theorem computes_liCode : ∀ i ∈ liCode rd val, computes i = true := by
  rw [liCode]
  split_ifs <;> simp [computes]

variable {rd}

/-- The code leaves the constant in its register, whatever was there before. -/
theorem liCode_regs (hrd : rd ≠ 0#5) {s : Seq} (hzero : s.regs 0#5 = 0#32) :
    ((liCode rd val).foldl Seq.execute s).regs = RegWrite.apply s.regs ⟨rd, val⟩ := by
  have hval := hiPart_add_loPart val
  rw [liCode]
  split_ifs with hh hl
  case pos => -- `addi rd, x0, lo`
    have hlo : (loPart val).signExtend 32 = val := by
      rw [hh] at hval
      exact (BitVec.zero_add _).symm.trans hval
    refine execute_regs hrd (congrArg (Outcome.compute s.pc rd) ?_)
    change s.regs 0#5 + (loPart val).signExtend 32 = val
    rw [hzero, hlo, BitVec.zero_add]
  case pos => -- `lui rd, hi`
    have hhi : hiPart val ++ 0#12 = val := by
      rw [hl] at hval
      exact (BitVec.add_zero _).symm.trans hval
    exact execute_regs hrd (congrArg (Outcome.compute s.pc rd) hhi)
  case neg => -- `lui rd, hi; addi rd, rd, lo`
    obtain ⟨s', hs'⟩ : ∃ s', s' = s.execute (.lui rd (hiPart val)) := ⟨_, rfl⟩
    have hlui : s'.regs = RegWrite.apply s.regs ⟨rd, hiPart val ++ 0#12⟩ := by
      rw [hs']
      exact execute_regs hrd rfl
    have hsource : s'.regs rd = hiPart val ++ 0#12 := by
      rw [hlui]
      exact if_pos rfl
    have haddi : (s'.execute (.arithImm .add rd rd (loPart val))).regs =
        RegWrite.apply s'.regs ⟨rd, val⟩ := by
      refine execute_regs hrd (congrArg (Outcome.compute s'.pc rd) ?_)
      change s'.regs rd + (loPart val).signExtend 32 = val
      rw [hsource, hval]
    rw [List.foldl_cons, List.foldl_cons, List.foldl_nil, ← hs', haddi, hlui]
    funext r
    simp only [RegWrite.apply]
    split_ifs <;> rfl

end code

/-- **`li` loads the constant** into any register but `x0`, in one instruction or two, and leaves
the other registers, the CSRs and the memory alone. -/
theorem li_loads_constant (prog : List Word) (rd val : Word) (hpos : 1 ≤ rd.toNat)
    (hle : rd.toNat ≤ 31) :
    ∃ ws, li prog rd val = prog ++ ws ∧ (ws.length = 1 ∨ ws.length = 2) ∧
      ∀ (c : Config) (imem : Word → Word) (s s' : ArchState), HoldsCode imem s.pc ws →
        s' = (ArchState.step c imem)^[ws.length] s →
        s'.regs (rd.setWidth 5) = val ∧ (∀ r ≠ rd.setWidth 5, s'.regs r = s.regs r) ∧
          s'.pc = s.pc + BitVec.ofNat 32 (4 * ws.length) ∧ s'.csr = s.csr ∧ s'.mem = s.mem := by
  obtain ⟨rd, rfl⟩ : ∃ y : Reg, y.setWidth 32 = rd :=
    FitsUnsigned.exists_setWidth (Nat.lt_succ_of_le hle)
  have hrd : rd ≠ 0#5 := by
    rintro rfl
    exact absurd hpos (by decide)
  have hreg : (rd.setWidth 32).setWidth 5 = rd := by simp
  refine ⟨(liCode rd val).map Instr.encode, li_eq rd val prog, ?_, ?_⟩
  · rw [List.length_map]
    exact liCode_length rd val
  · rintro c imem s s' himem rfl
    rw [hreg, List.length_map, ArchState.toSeq_iterate,
      seqStep_code (liCode rd val) (computes_liCode rd val) himem, liCode_regs val hrd s.zero]
    refine ⟨if_pos rfl, fun r hr => if_neg hr, ?_⟩
    exact foldl_execute_frame (liCode rd val)

/-- `li(A1, 0xCAFECAFE)`: the low part is negative. -/
theorem li_loads_constant_cafe :
    li [] 11#32 0xcafecafe#32 = [0xcafed5b7#32, 0xafe58593#32] ∧
      ((ArchState.step {} fun a => if a = 0#32 then 0xcafed5b7#32 else 0xafe58593#32)^[2]
        (ArchState.reset {} fun _ => 0#32)).regs 11#5 = 0xcafecafe#32 := by
  obtain ⟨ws, hws, -, hrun⟩ := li_loads_constant [] 11#32 0xcafecafe#32 (by decide) (by decide)
  have hcode : li [] 11#32 0xcafecafe#32 = [0xcafed5b7#32, 0xafe58593#32] := by decide
  obtain rfl : ws = [0xcafed5b7#32, 0xafe58593#32] := hws.symm.trans hcode
  refine ⟨hcode, ?_⟩
  exact (hrun {} _ (ArchState.reset {} fun _ => 0#32) _ ⟨rfl, rfl, trivial⟩ rfl).1

end Firmware

end RiscvV2
