import RiscvV2.CodeLogic
import RiscvV2.SelfTest

/-!
# Running the self-test

The program of any list of tests, on any hart. What the probes leave in `a1` is given as a
function of their operands; the run then writes the values one by one into the result slots,
and the done marker last. Up to that store the status word is what it was before the run, so
whoever sees the marker sees all results.

The code is verified with the weakest precondition of `CodeLogic`, probe by probe, from any
state in which the two base pointers hold. The guard says that the status word is still the old
one and that accesses stay in the first kilobyte. For a list of tests the induction is on the
list, with the memory and the number of the next slot arbitrary. That the expected values of the
source are right is then an evaluation: the values of `build_program` are computed and compared.
-/

namespace RiscvV2

open Rv32 (Reg Instr Op MulDivOp Cond Width LoadOp ArithOp ShiftOp ByteMem MemOp Outcome Platform
  Hart Program RegFile)

namespace Firmware

/-! ## The data memory

The status word, the result slots and the scratch area lie apart, and each keeps its value when
another one is written. -/

/-- The status word. -/
def status (m : ByteMem) : Word := m.load .word false statusOff

/-- The address of result slot `n`. -/
def slotAddr (n : ℕ) : Word := resultOff + BitVec.ofNat 32 (4 * n)

/-- Result slot `n`. -/
def slot (m : ByteMem) (n : ℕ) : Word := m.load .word false (slotAddr n)

/-- An address of the scratch area. -/
def scratchAddr (offset : BitVec 12) : Word := scratchOff + offset.signExtend 32

/-- An access of this width stays inside the scratch area. -/
def FitsScratch (width : Width) (offset : BitVec 12) : Prop :=
  offset.toNat % width.bytes = 0 ∧ offset.toNat + width.bytes ≤ 0x200

instance (width : Width) (offset : BitVec 12) : Decidable (FitsScratch width offset) :=
  inferInstanceAs (Decidable (_ ∧ _))

theorem slotAddr_toNat {n : ℕ} (hn : n < 112) : (slotAddr n).toNat = 0x40 + 4 * n := by
  rw [slotAddr, resultOff, BitVec.toNat_add, BitVec.toNat_ofNat, BitVec.toNat_ofNat]
  omega

theorem scratchAddr_toNat {width : Width} {offset : BitVec 12} (h : FitsScratch width offset) :
    (scratchAddr offset).toNat = 0x200 + offset.toNat := by
  have hsmall := h.2
  have hmsb : offset.msb = false := by
    rw [BitVec.msb_eq_decide, decide_eq_false_iff_not]
    omega
  rw [scratchAddr, scratchOff, BitVec.signExtend_eq_setWidth_of_msb_false hmsb, BitVec.toNat_add,
    BitVec.toNat_setWidth, BitVec.toNat_ofNat]
  omega

theorem scratchAddr_aligned {width : Width} {offset : BitVec 12} (h : FitsScratch width offset) :
    (scratchAddr offset).toNat % width.bytes = 0 := by
  have hal := h.1
  rw [scratchAddr_toNat h]
  cases width <;> simp only [Width.bytes] at hal ⊢ <;> omega

section disjoint

variable {m : ByteMem} {width : Width} {offset : BitVec 12} {data : Word} {n k : ℕ}

theorem bytes_word : Width.word.bytes = 4 := rfl

theorem status_store_scratch (h : FitsScratch width offset) :
    status (m.store width (scratchAddr offset) data) = status m := by
  have haddr := scratchAddr_toNat h
  have hend := h.2
  refine ByteMem.load_store_of_disjoint (.inr ?_) ?_ (by decide)
  · rw [haddr]
    exact Nat.le_add_right_of_le (by decide)
  · omega

theorem status_store_slot (hn : n < 112) :
    status (m.store .word (slotAddr n) data) = status m := by
  have haddr := slotAddr_toNat hn
  refine ByteMem.load_store_of_disjoint (.inr ?_) ?_ (by decide)
  · rw [haddr]
    exact Nat.le_add_right_of_le (by decide)
  · rw [haddr, bytes_word]
    omega

theorem slot_store_scratch (h : FitsScratch width offset) (hn : n < 112) :
    slot (m.store width (scratchAddr offset) data) n = slot m n := by
  have haddr := scratchAddr_toNat h
  have hslot := slotAddr_toNat hn
  have hend := h.2
  have hword := bytes_word
  refine ByteMem.load_store_of_disjoint (.inr ?_) ?_ ?_
  all_goals omega

theorem slot_store_slot_of_ne (hn : n < 112) (hk : k < 112) (hne : n ≠ k) :
    slot (m.store .word (slotAddr k) data) n = slot m n := by
  have hslotn := slotAddr_toNat hn
  have hslotk := slotAddr_toNat hk
  refine ByteMem.load_store_of_disjoint ?_ ?_ ?_
  all_goals
    rw [bytes_word]
    omega

theorem slot_store_status (hn : n < 112) :
    slot (m.store .word statusOff data) n = slot m n := by
  have hslot := slotAddr_toNat hn
  have hstatus : statusOff.toNat = 0x10 := rfl
  refine ByteMem.load_store_of_disjoint (.inl ?_) (by decide) ?_
  all_goals
    rw [bytes_word]
    omega

end disjoint

/-! ## What the probes compute

A probe leaves a value and a memory, both as functions of its operands and of the memory it
finds. Only the tests of loads and stores look at the memory. -/

namespace Probe

/-- Every access of the probe stays inside the scratch area. -/
def InScratch : Probe → Prop
  | .storeLoad width load _ offset => FitsScratch width offset ∧ FitsScratch load.width offset
  | .reload load offset => FitsScratch load.width offset
  | _ => True

instance : ∀ p : Probe, Decidable p.InScratch
  | .storeLoad .. => inferInstanceAs (Decidable (_ ∧ _))
  | .reload .. => inferInstanceAs (Decidable (FitsScratch _ _))
  | .reg .. | .regImm .. | .shiftImm .. | .fence | .fenceI | .lui .. | .auipcDiff | .taken ..
  | .notTaken .. | .jal | .jalr => isTrue trivial

/-- The memory after the probe. -/
def memAfter (m : ByteMem) : Probe → ByteMem
  | .storeLoad width _ v offset => m.store width (scratchAddr offset) v
  | _ => m

/-- The value in `a1` after the probe. -/
def value (m : ByteMem) : Probe → Word
  | .reg o lhs rhs => o.eval lhs rhs
  | .regImm o v imm => o.eval v (imm.signExtend 32)
  | .shiftImm o v shamt => o.eval v shamt.toNat
  | .fence | .fenceI | .jal | .jalr => 1#32
  | .lui imm => imm ++ 0#12
  | .auipcDiff => 4#32
  | .storeLoad width load v offset =>
    ByteMem.load (m.store width (scratchAddr offset) v) load.width load.unsigned
      (scratchAddr offset)
  | .reload load offset => m.load load.width load.unsigned (scratchAddr offset)
  | .taken cond v0 v1 => if cond.holds v0 v1 then 1#32 else 0#32
  | .notTaken cond v => if cond.holds v v then 0#32 else 1#32

theorem slot_memAfter {p : Probe} (hp : p.InScratch) (m : ByteMem) {n : ℕ} (hn : n < 112) :
    slot (p.memAfter m) n = slot m n := by
  cases p with
  | storeLoad width load v offset => exact slot_store_scratch hp.1 hn
  | _ => rfl

end Probe

/-! ## Code of the self-test

Rules for the pieces of code that the probes are made of, each keeping the base pointers and the
guard. -/

section code

variable {C : Type} {P : Platform C} {s : Word} {m : ByteMem} {h : Hart C} {op : Op}
  {ops : List Op} {post : Hart C → Prop} {rd : Reg} {val : Word}

/-- Before the done marker: the status word is `s`, and the accesses stay where the firmware
has cleared the memory. -/
def Guarded (P : Platform C) (s : Word) (h : Hart C) (op : Op) : Prop :=
  status h.mem = s ∧ ∀ a ∈ h.access P op, a.addr.toNat < 0x400

theorem guarded_of_no_access (hs : status h.mem = s) (ha : h.access P op = none) :
    Guarded P s h op := by
  refine ⟨hs, ?_⟩
  rw [ha]
  rintro a ⟨⟩

theorem guarded_store {width : Width} {rs1 rs2 : Reg} {offset : BitVec 12} {addr : Word}
    (hs : status h.mem = s) (haddr : h.regs.get rs1 + offset.signExtend 32 = addr)
    (hsmall : addr.toNat < 0x400) : Guarded P s h (.instr (.store width rs1 rs2 offset)) := by
  refine ⟨hs, ?_⟩
  rintro a ⟨⟩
  exact haddr ▸ hsmall

/-- **`li` as one operation.** -/
theorem wp_li (hrd : rd ≠ 0#5) (hs : status h.mem = s)
    (hw : Hart.wp P (Guarded P s) ops post
      { h with
        pc := h.pc + BitVec.ofNat 32 (4 * (liOps rd val).length)
        regs := h.regs.set rd val }) :
    h.wp P (Guarded P s) (liOps rd val ++ ops) post := by
  have hval := hiPart_add_loPart val
  by_cases hh : hiPart val = 0#20
  · -- `addi rd, x0, lo`
    have hcode : liOps rd val = [.instr (.arithImm .add rd 0#5 (loPart val))] := by
      rw [liOps, liCode, if_pos hh]
      rfl
    rw [hcode] at hw ⊢
    refine Hart.wp_compute (guarded_of_no_access hs rfl) ?_ hw
    refine congrArg (Outcome.compute h.pc rd) ?_
    change h.regs.get 0#5 + (loPart val).signExtend 32 = val
    rw [hh] at hval
    rw [h.regs.get_zero]
    exact hval
  by_cases hl : loPart val = 0#12
  · -- `lui rd, hi`
    have hcode : liOps rd val = [.instr (.lui rd (hiPart val))] := by
      rw [liOps, liCode, if_neg hh, if_pos hl]
      rfl
    rw [hcode] at hw ⊢
    refine Hart.wp_compute (guarded_of_no_access hs rfl) ?_ hw
    refine congrArg (Outcome.compute h.pc rd) ?_
    rw [hl] at hval
    exact (BitVec.add_zero _).symm.trans hval
  · -- `lui rd, hi; addi rd, rd, lo`
    have hcode : liOps rd val =
        [.instr (.lui rd (hiPart val)), .instr (.arithImm .add rd rd (loPart val))] := by
      rw [liOps, liCode, if_neg hh, if_neg hl]
      rfl
    rw [hcode] at hw ⊢
    refine Hart.wp_compute (guarded_of_no_access hs rfl) rfl ?_
    refine Hart.wp_compute (guarded_of_no_access hs rfl)
      (?_ : _ = Outcome.compute (h.pc + 4#32) rd val) ?_
    · refine congrArg (Outcome.compute (h.pc + 4#32) rd) ?_
      change (h.regs.set rd (hiPart val ++ 0#12)).get rd + (loPart val).signExtend 32 = val
      rw [h.regs.get_set_self _ hrd, hval]
    · rw [h.regs.set_set, BitVec.add_assoc]
      exact hw

/-- The hart between two probes, with the memory `m`. -/
structure Ready (s : Word) (m : ByteMem) (h : Hart C) : Prop where
  results : h.regs.get xA0 = resultOff
  scratch : h.regs.get xA2 = scratchOff
  mem : h.mem = m
  even : h.pc.toNat % 2 = 0
  status : status m = s

namespace Ready

variable (hr : Ready s m h)

include hr

theorem status_mem : Firmware.status h.mem = s := by rw [hr.mem, hr.status]

/-- The pointers stay where they are. -/
theorem write (rd : Reg) (v : Word) (k : ℕ) (h0 : rd ≠ xA0) (h2 : rd ≠ xA2) :
    Ready s m { h with pc := h.pc + BitVec.ofNat 32 (4 * k), regs := h.regs.set rd v } where
  results := (h.regs.get_set_of_ne v h0.symm).trans hr.results
  scratch := (h.regs.get_set_of_ne v h2.symm).trans hr.scratch
  mem := hr.mem
  even := by
    have heven := hr.even
    rw [BitVec.toNat_add, BitVec.toNat_ofNat]
    omega
  status := hr.status

theorem wp_compute {i : Instr} (rd : Reg) (v : Word)
    (ho : h.outcome P i = .compute h.pc rd v) (h0 : rd ≠ xA0) (h2 : rd ≠ xA2)
    (hw : ∀ g : Hart C, Ready s m g → g.pc = h.pc + 4#32 → g.regs = h.regs.set rd v →
      g.wp P (Guarded P s) ops post) :
    h.wp P (Guarded P s) (.instr i :: ops) post := by
  refine Hart.wp_compute (guarded_of_no_access hr.status_mem ?_) ho ?_
  · exact congrArg Outcome.mem ho
  · exact hw _ (hr.write rd v 1 h0 h2) rfl rfl

/-- The instruction that leaves the value of a probe. -/
theorem wp_value {i : Instr} {v : Word} (ho : h.outcome P i = .compute h.pc xA1 v) :
    h.wp P (Guarded P s) [.instr i] fun g => Ready s m g ∧ g.regs.get xA1 = v := by
  refine hr.wp_compute xA1 v ho (by decide) (by decide) fun g hg _ hregs => ?_
  refine Hart.wp_nil ⟨hg, ?_⟩
  rw [hregs]
  exact h.regs.get_set_self v (by decide)

theorem wp_addi (k : BitVec 12)
    (hw : ∀ g : Hart C, Ready s m g → g.pc = h.pc + 4#32 →
      g.regs = h.regs.set xA1 (k.signExtend 32) → g.wp P (Guarded P s) ops post) :
    h.wp P (Guarded P s) (addi xA1 k :: ops) post := by
  refine hr.wp_compute xA1 (k.signExtend 32) ?_ (by decide) (by decide) hw
  refine congrArg (Outcome.compute h.pc xA1) ?_
  change h.regs.get 0#5 + k.signExtend 32 = k.signExtend 32
  rw [h.regs.get_zero, BitVec.zero_add]

/-- `addi a1, x0, k` at the end. -/
theorem wp_addi_value (k : BitVec 12) :
    h.wp P (Guarded P s) [addi xA1 k] fun g => Ready s m g ∧ g.regs.get xA1 = k.signExtend 32 := by
  refine hr.wp_addi k fun g hg _ hregs => Hart.wp_nil ⟨hg, ?_⟩
  rw [hregs]
  exact h.regs.get_set_self _ (by decide)

/-- An operand in `t0`. -/
theorem wp_operand (v : Word)
    (hw : ∀ g : Hart C, Ready s m g → g.regs.get xT0 = v → g.wp P (Guarded P s) ops post) :
    h.wp P (Guarded P s) (liOps xT0 v ++ ops) post := by
  refine wp_li (by decide) hr.status_mem (hw _ (hr.write xT0 v _ (by decide) (by decide)) ?_)
  exact h.regs.get_set_self v (by decide)

/-- Operands in `t0` and `t1`. -/
theorem wp_operands (v0 v1 : Word)
    (hw : ∀ g : Hart C, Ready s m g → g.regs.get xT0 = v0 → g.regs.get xT1 = v1 →
      g.wp P (Guarded P s) ops post) :
    h.wp P (Guarded P s) (liOps xT0 v0 ++ (liOps xT1 v1 ++ ops)) post := by
  refine hr.wp_operand v0 fun g hg hv0 => ?_
  refine wp_li (by decide) hg.status_mem
    (hw _ (hg.write xT1 v1 _ (by decide) (by decide)) ?_ (g.regs.get_set_self v1 (by decide)))
  exact (g.regs.get_set_of_ne v1 (by decide)).trans hv0

/-- `li a1, 1` at the end. -/
theorem wp_one : h.wp P (Guarded P s) (liOps xA1 1) fun g =>
    Ready s m g ∧ g.regs.get xA1 = 1#32 :=
  hr.wp_addi_value 1#12

/-- An operation on `t0` and `t1`. -/
theorem wp_regOp (o : RegOp) {v0 v1 : Word} (hv0 : h.regs.get xT0 = v0)
    (hv1 : h.regs.get xT1 = v1) :
    h.wp P (Guarded P s) [o.op xA1 xT0 xT1] fun g =>
      Ready s m g ∧ g.regs.get xA1 = o.eval v0 v1 := by
  subst hv0 hv1
  cases o with
  | arith | sub | shift => exact hr.wp_value rfl
  | mulDiv op =>
    have hg := hr.write xA1 (op.eval (h.regs.get xT0) (h.regs.get xT1)) 1 (by decide) (by decide)
    refine Hart.wp_cons (guarded_of_no_access hr.status_mem rfl) rfl (Hart.wp_nil ⟨hg, ?_⟩)
    exact h.regs.get_set_self _ (by decide)

/-- A fence. -/
theorem wp_fence (hop : h.exec P op = { h with pc := h.pc + 4#32 }) (ha : h.access P op = none)
    (hw : ∀ g : Hart C, Ready s m g → g.wp P (Guarded P s) ops post) :
    h.wp P (Guarded P s) (op :: ops) post := by
  have hg := hr.write 0#5 0#32 1 (by decide) (by decide)
  rw [h.regs.set_zero] at hg
  refine Hart.wp_cons (guarded_of_no_access hr.status_mem ha) ?_ ?_
  · rw [hop]
  · rw [hop]
    exact hw _ hg

/-- A load from the scratch area. -/
theorem wp_scratchLoad {load : LoadOp} {offset : BitVec 12}
    (hfault : ∀ addr : Word, addr.toNat < 0x400 → P.fault addr = false)
    (hfits : FitsScratch load.width offset) :
    h.wp P (Guarded P s) [.instr (.load load xA1 xA2 offset)] fun g =>
      Ready s m g ∧ g.regs.get xA1 = m.load load.width load.unsigned (scratchAddr offset) := by
  have haddr : h.regs.get xA2 + offset.signExtend 32 = scratchAddr offset := by
    rw [hr.scratch, scratchAddr]
  have hnat := scratchAddr_toNat hfits
  have hal := scratchAddr_aligned hfits
  have hend := hfits.2
  have hbytes : 0 < load.width.bytes := by cases load <;> decide
  have hsmall : (scratchAddr offset).toNat < 0x400 := by omega
  have hg := hr.write xA1 (h.mem.load load.width load.unsigned (scratchAddr offset)) 1
    (by decide) (by decide)
  refine Hart.wp_load ⟨hr.status_mem, ?_⟩ haddr hal (hfault _ hsmall) (Hart.wp_nil ⟨hg, ?_⟩)
  · rintro a ⟨⟩
    exact haddr ▸ hsmall
  · rw [← hr.mem]
    exact h.regs.get_set_self _ (by decide)

/-- A store inside the memory that leaves the status word alone. -/
theorem wp_store {width : Width} {rs1 rs2 : Reg} {offset : BitVec 12} {addr : Word}
    (hfault : ∀ addr : Word, addr.toNat < 0x400 → P.fault addr = false)
    (haddr : h.regs.get rs1 + offset.signExtend 32 = addr) (hal : addr.toNat % width.bytes = 0)
    (hsmall : addr.toNat < 0x400)
    (hstatus : Firmware.status (m.store width addr (h.regs.get rs2)) = s)
    (hw : ∀ g : Hart C, Ready s (m.store width addr (h.regs.get rs2)) g → g.regs = h.regs →
      g.wp P (Guarded P s) ops post) :
    h.wp P (Guarded P s) (.instr (.store width rs1 rs2 offset) :: ops) post := by
  have hnext := hr.write 0#5 0#32 1 (by decide) (by decide)
  rw [h.regs.set_zero] at hnext
  refine Hart.wp_store (guarded_store hr.status_mem haddr hsmall) haddr hal (hfault _ hsmall)
    (hw _ ?_ rfl)
  exact ⟨hr.results, hr.scratch, congrArg (ByteMem.store · _ _ _) hr.mem, hnext.even, hstatus⟩

/-- A branch over one operation. -/
theorem wp_branch (cond : Cond) (rs1 rs2 : Reg)
    (hskip : cond.holds (h.regs.get rs1) (h.regs.get rs2) →
      ∀ g : Hart C, Ready s m g → g.regs = h.regs → post g)
    (hfall : ¬cond.holds (h.regs.get rs1) (h.regs.get rs2) →
      ∀ g : Hart C, Ready s m g → g.regs = h.regs → g.wp P (Guarded P s) [op] post) :
    h.wp P (Guarded P s) [.instr (.branch cond rs1 rs2 4#12), op] post := by
  have hguard : Guarded P s h (.instr (.branch cond rs1 rs2 4#12)) :=
    guarded_of_no_access hr.status_mem rfl
  have hexec : h.exec P (.instr (.branch cond rs1 rs2 4#12)) =
      { h with
        pc := if cond.holds (h.regs.get rs1) (h.regs.get rs2) then h.pc + 8#32
          else h.pc + 4#32 } := rfl
  have hgo : ∀ k, Ready s m { h with pc := h.pc + BitVec.ofNat 32 (4 * k) } := by
    intro k
    have hg := hr.write 0#5 0#32 k (by decide) (by decide)
    rw [h.regs.set_zero] at hg
    exact hg
  by_cases hc : cond.holds (h.regs.get rs1) (h.regs.get rs2)
  · rw [if_pos hc] at hexec
    have hpost := hskip hc _ (hgo 2) rfl
    refine Hart.wp_skip [op] hguard ?_ (Hart.wp_nil ?_)
    · rw [hexec]
      rfl
    · rw [hexec]
      exact hpost
  · rw [if_neg hc] at hexec
    have hw := hfall hc _ (hgo 1) rfl
    refine Hart.wp_cons hguard ?_ ?_
    · rw [hexec]
    · rw [hexec]
      exact hw

/-- A jump over one operation. -/
theorem wp_jump (rd : Reg) (v : Word) (skipped : Op) (h0 : rd ≠ xA0) (h2 : rd ≠ xA2)
    (hexec : h.exec P op = { h with pc := h.pc + 8#32, regs := h.regs.set rd v })
    (ha : h.access P op = none) (hw : ∀ g : Hart C, Ready s m g → g.wp P (Guarded P s) ops post) :
    h.wp P (Guarded P s) (op :: skipped :: ops) post := by
  have hg := hr.write rd v 2 h0 h2
  refine Hart.wp_skip [skipped] (guarded_of_no_access hr.status_mem ha) ?_ ?_
  · rw [hexec]
    rfl
  · rw [hexec]
    exact hw _ hg

end Ready

/-- Dropping the low bit of an even address changes nothing. -/
theorem and_not_one_of_even {x : Word} (hx : x.toNat % 2 = 0) : x &&& ~~~1#32 = x := by
  have hlow : x.getLsbD 0 = false := by
    rw [BitVec.getLsbD, Nat.testBit_zero, hx]
    rfl
  refine BitVec.eq_of_getLsbD_eq fun j hj => ?_
  rw [BitVec.getLsbD_and, BitVec.getLsbD_not]
  cases j with
  | zero => rw [hlow, Bool.false_and]
  | succ j => simp [hj]

/-- **A probe leaves its value in `a1`**, wherever its code stands. -/
theorem Probe.wp_code (hfault : ∀ addr : Word, addr.toNat < 0x400 → P.fault addr = false)
    {p : Probe} (hp : p.InScratch) (hr : Ready s m h) :
    h.wp P (Guarded P s) p.code fun g =>
      Ready s (p.memAfter m) g ∧ g.regs.get xA1 = p.value m := by
  cases p with
  | reg o lhs rhs => exact hr.wp_operands lhs rhs fun g hg hv0 hv1 => hg.wp_regOp o hv0 hv1
  | regImm o v imm =>
    refine hr.wp_operand v fun g hg hv => ?_
    subst hv
    exact hg.wp_value rfl
  | shiftImm o v shamt =>
    refine hr.wp_operand v fun g hg hv => ?_
    subst hv
    exact hg.wp_value rfl
  | fence | fenceI => exact hr.wp_fence rfl rfl fun g hg => hg.wp_one
  | lui imm => exact hr.wp_value rfl
  | auipcDiff =>
    refine hr.wp_compute xT0 h.pc ?_ (by decide) (by decide) fun g hg hpc hregs => ?_
    · exact congrArg (Outcome.compute h.pc xT0) (BitVec.add_zero h.pc)
    refine hg.wp_compute xT1 g.pc ?_ (by decide) (by decide) fun g' hg' _ hregs' => ?_
    · exact congrArg (Outcome.compute g.pc xT1) (BitVec.add_zero g.pc)
    refine hg'.wp_value (congrArg (Outcome.compute g'.pc xA1) ?_)
    change g'.regs.get xT1 - g'.regs.get xT0 = 4#32
    rw [hregs', g.regs.get_set_self _ (by decide), g.regs.get_set_of_ne _ (by decide), hregs,
      h.regs.get_set_self _ (by decide), hpc, BitVec.add_comm, BitVec.add_sub_cancel]
  | storeLoad width load v offset =>
    obtain ⟨hstore, hload⟩ := hp
    have hnat := scratchAddr_toNat hstore
    have hbytes : 0 < width.bytes := by cases width <;> decide
    refine hr.wp_operand v fun g hg hv => ?_
    subst hv
    have haddr : g.regs.get xA2 + offset.signExtend 32 = scratchAddr offset := by
      rw [hg.scratch, scratchAddr]
    have hend := hstore.2
    refine hg.wp_store hfault haddr (scratchAddr_aligned hstore) (by omega) ?_
      fun g' hg' _ => hg'.wp_scratchLoad hfault hload
    rw [status_store_scratch hstore, hg.status]
  | reload load offset => exact hr.wp_scratchLoad hfault hp
  | taken cond v0 v1 =>
    refine hr.wp_operands v0 v1 fun g hg hv0 hv1 => ?_
    refine hg.wp_addi 1#12 fun g' hg' _ hregs => ?_
    have hone : g'.regs.get xA1 = 1#32 := by
      rw [hregs]
      exact g.regs.get_set_self _ (by decide)
    have hv0' : g'.regs.get xT0 = v0 := by rw [hregs, g.regs.get_set_of_ne _ (by decide), hv0]
    have hv1' : g'.regs.get xT1 = v1 := by rw [hregs, g.regs.get_set_of_ne _ (by decide), hv1]
    refine hg'.wp_branch cond xT0 xT1 (fun hc k hk hkregs => ⟨hk, ?_⟩) fun hc k hk _ => ?_
    · rw [hv0', hv1'] at hc
      rw [hkregs, hone, value, if_pos hc]
    · rw [hv0', hv1'] at hc
      rw [value, if_neg hc]
      exact hk.wp_addi_value 0#12
  | notTaken cond v =>
    refine hr.wp_operand v fun g hg hv => ?_
    refine hg.wp_addi 0#12 fun g' hg' _ hregs => ?_
    have hzero : g'.regs.get xA1 = 0#32 := by
      rw [hregs]
      exact g.regs.get_set_self _ (by decide)
    have hv' : g'.regs.get xT0 = v := by rw [hregs, g.regs.get_set_of_ne _ (by decide), hv]
    refine hg'.wp_branch cond xT0 xT0 (fun hc k hk hkregs => ⟨hk, ?_⟩) fun hc k hk _ => ?_
    · rw [hv'] at hc
      rw [hkregs, hzero, value, if_pos hc]
    · rw [hv'] at hc
      rw [value, if_neg hc]
      exact hk.wp_addi_value 1#12
  | jal =>
    refine hr.wp_addi 0#12 fun g hg _ _ => ?_
    exact hg.wp_jump xRa (g.pc + 4#32) _ (by decide) (by decide) rfl rfl fun k hk =>
      hk.wp_addi_value 1#12
  | jalr =>
    refine hr.wp_compute xT2 h.pc ?_ (by decide) (by decide) fun g hg hpc hregs => ?_
    · exact congrArg (Outcome.compute h.pc xT2) (BitVec.add_zero h.pc)
    refine hg.wp_addi 0#12 fun g' hg' hpc' hregs' => ?_
    -- the target is the word behind the next one, for the program stands at an even address
    have htarget : (g'.regs.get xT2 + 16#32) &&& ~~~1#32 = g'.pc + 8#32 := by
      have hT2 : g'.regs.get xT2 = h.pc := by
        rw [hregs', g.regs.get_set_of_ne _ (by decide), hregs]
        exact h.regs.get_set_self _ (by decide)
      have hsum : h.pc + 16#32 = g'.pc + 8#32 := by
        rw [hpc', hpc, BitVec.add_assoc, BitVec.add_assoc]
        rfl
      have heven := (hg'.write 0#5 0#32 2 (by decide) (by decide)).even
      rw [hT2, hsum]
      exact and_not_one_of_even heven
    refine hg'.wp_jump 0#5 (g'.pc + 4#32) _ (by decide) (by decide) ?_ rfl fun k hk =>
      hk.wp_addi_value 1#12
    rw [← htarget]
    rfl

end code

/-! ## The whole program -/

/-- The memory after tests whose results go into the slots from `n` on. -/
def finalMem : ByteMem → ℕ → List Test → ByteMem
  | m, _, [] => m
  | m, n, t :: ts =>
    finalMem ((t.probe.memAfter m).store .word (slotAddr n) (t.probe.value m)) (n + 1) ts

/-- Their results. -/
def values : ByteMem → ℕ → List Test → List Word
  | _, _, [] => []
  | m, n, t :: ts =>
    t.probe.value m ::
      values ((t.probe.memAfter m).store .word (slotAddr n) (t.probe.value m)) (n + 1) ts

/-- The tests have room for their results and keep to the scratch area. -/
structure Fits (n : ℕ) (tests : List Test) : Prop where
  slots : n + tests.length ≤ 112
  scratch : ∀ t ∈ tests, t.probe.InScratch

section fits

variable {n : ℕ} {t : Test} {ts : List Test} (hf : Fits n (t :: ts))

include hf

theorem Fits.lt : n < 112 := by
  have hslots := hf.slots
  rw [List.length_cons] at hslots
  omega

theorem Fits.head : t.probe.InScratch := hf.scratch t List.mem_cons_self

theorem Fits.tail : Fits (n + 1) ts := by
  have hslots := hf.slots
  rw [List.length_cons] at hslots
  exact ⟨by omega, fun t' ht' => hf.scratch t' (List.mem_cons_of_mem t ht')⟩

end fits

/-- A slot below those of the tests keeps its value. -/
theorem slot_finalMem_of_lt {m : ByteMem} {n k : ℕ} {ts : List Test} (hf : Fits n ts)
    (hk : k < n) : slot (finalMem m n ts) k = slot m k := by
  induction ts generalizing m n with
  | nil => rfl
  | cons t ts ih =>
    have hn := hf.lt
    rw [finalMem, ih hf.tail (hk.trans (Nat.lt_succ_self n)),
      slot_store_slot_of_ne (hk.trans hn) hn hk.ne, Probe.slot_memAfter hf.head m (hk.trans hn)]

/-- **Every slot ends with the value of its test.** -/
theorem slot_finalMem {m : ByteMem} {n i : ℕ} {ts : List Test} {v : Word} (hf : Fits n ts)
    (hv : (values m n ts)[i]? = some v) : slot (finalMem m n ts) (n + i) = v := by
  induction ts generalizing m n i with
  | nil => cases hv
  | cons t ts ih =>
    cases i with
    | zero =>
      obtain rfl := Option.some.inj hv
      exact (slot_finalMem_of_lt hf.tail (Nat.lt_succ_self n)).trans ByteMem.load_store_word
    | succ i =>
      have hnext : n + (i + 1) = n + 1 + i := by omega
      rw [finalMem, hnext]
      exact ih hf.tail hv

theorem values_append (m : ByteMem) (n : ℕ) (ts ts' : List Test) :
    values m n (ts ++ ts') = values m n ts ++ values (finalMem m n ts) (n + ts.length) ts' := by
  induction ts generalizing m n with
  | nil => rfl
  | cons t ts ih =>
    have hidx : n + (t :: ts).length = n + 1 + ts.length := by
      rw [List.length_cons]
      omega
    rw [List.cons_append, values, values, finalMem, List.cons_append, ih, hidx]

theorem values_length (m : ByteMem) (n : ℕ) (ts : List Test) :
    (values m n ts).length = ts.length := by
  induction ts generalizing m n with
  | nil => rfl
  | cons t ts ih => rw [values, List.length_cons, List.length_cons, ih]

/-! ### The values of `build_program` -/

/-- The store of a result does not change what a probe has stored. -/
theorem load_store_slot (width : Width) {m : ByteMem} {offset : BitVec 12} {v : Word} {n : ℕ}
    {unsigned : Bool} (hfits : FitsScratch width offset) (hn : n < 112) :
    ByteMem.load (m.store .word (slotAddr n) v) width unsigned (scratchAddr offset) =
      m.load width unsigned (scratchAddr offset) := by
  have haddr := scratchAddr_toNat hfits
  have hslot := slotAddr_toNat hn
  have hend := hfits.2
  have hword := bytes_word
  refine ByteMem.load_store_of_disjoint (.inl ?_) ?_ ?_
  all_goals omega

theorem values_memory (m : ByteMem) {n : ℕ} (hn : n + 5 ≤ 112) :
    values m n Tests.memory = Tests.memory.map Test.expected := by
  simp only [Tests.memory, values, Probe.value, Probe.memAfter, LoadOp.width, List.map_cons,
    List.map_nil]
  rw [load_store_slot .half (by decide) (by omega), load_store_slot .byte (by decide) (by omega)]
  simp only [ByteMem.load_store, LoadOp.unsigned]
  decide

/-- **The expected values of `build_program` are the right ones**, from every memory. -/
theorem values_selfTests (m : ByteMem) : values m 0 selfTests = selfTests.map Test.expected := by
  simp only [selfTests, values_append, List.map_append]
  rw [values_memory _ (by decide)]
  rfl

theorem fits_selfTests : Fits 0 selfTests := ⟨by decide, by decide⟩

section program

variable {C : Type} {P : Platform C} {s : Word} {m : ByteMem} {h : Hart C} {prog : Program}
  {post : Hart C → Prop}

/-- The store of a result. -/
theorem Ready.wp_slot (hfault : ∀ addr : Word, addr.toNat < 0x400 → P.fault addr = false)
    {n : ℕ} {ops : List Op} (hr : Ready s m h) (hn : n < 112)
    (hw : ∀ g : Hart C, Ready s (m.store .word (slotAddr n) (h.regs.get xA1)) g →
      g.wp P (Guarded P s) ops post) :
    h.wp P (Guarded P s) (slotOp n :: ops) post := by
  have hnat := slotAddr_toNat hn
  have haddr : h.regs.get xA0 + (BitVec.ofNat 12 (4 * n)).signExtend 32 = slotAddr n := by
    rw [hr.results, ← slotOffset (by omega), slotAddr, BitVec.ofNat_mul, BitVec.mul_comm]
  refine hr.wp_store hfault haddr ?_ (by omega) ?_ fun g hg _ => hw g hg
  · rw [hnat, bytes_word]
    omega
  · rw [status_store_slot hn, hr.status]

/-- **The code of a list of tests**: by induction on the list, from any memory and slot. -/
theorem wp_testsCode (hfault : ∀ addr : Word, addr.toNat < 0x400 → P.fault addr = false)
    {n : ℕ} {ts : List Test} (hf : Fits n ts) (hr : Ready s m h) :
    h.wp P (Guarded P s) (testsCode n ts) (Ready s (finalMem m n ts)) := by
  induction ts generalizing m n h with
  | nil => exact Hart.wp_nil hr
  | cons t ts ih =>
    refine Hart.wp_append (Hart.wp_mono (t.probe.wp_code hfault hf.head hr) ?_)
    rintro g ⟨hg, hvalue⟩
    refine hg.wp_slot hfault hf.lt fun g' hg' => ?_
    rw [hvalue] at hg'
    exact ih hf.tail hg'

/-- The program up to its final loop. -/
theorem wp_program (hfault : ∀ addr : Word, addr.toNat < 0x400 → P.fault addr = false)
    {tests : List Test} (hf : Fits 0 tests) (heven : h.pc.toNat % 2 = 0) :
    h.wp P (Guarded P (status h.mem)) (prologue ++ (testsCode 0 tests ++ epilogue)) fun g =>
      g.mem = (finalMem h.mem 0 tests).store .word statusOff statusDone := by
  rw [prologue, List.append_assoc]
  refine wp_li (by decide) rfl (wp_li (by decide) rfl ?_)
  have hready : Ready (status h.mem) h.mem
      { h with
        pc := h.pc + BitVec.ofNat 32 (4 * (liOps xA0 resultOff).length) +
          BitVec.ofNat 32 (4 * (liOps xA2 scratchOff).length)
        regs := (h.regs.set xA0 resultOff).set xA2 scratchOff } := by
    refine ⟨?_, ?_, rfl, ?_, rfl⟩
    · exact (RegFile.get_set_of_ne _ _ (by decide)).trans (h.regs.get_set_self _ (by decide))
    · exact RegFile.get_set_self _ _ (by decide)
    · rw [BitVec.toNat_add, BitVec.toNat_add, BitVec.toNat_ofNat, BitVec.toNat_ofNat]
      omega
  refine Hart.wp_append (Hart.wp_mono (wp_testsCode hfault hf hready) fun g hg => ?_)
  refine wp_li (by decide) hg.status_mem ?_
  have hg' := hg.write xA1 statusDone (liOps xA1 statusDone).length (by decide) (by decide)
  have haddr : (g.regs.set xA1 statusDone).get xA0 + (-0x30 : BitVec 12).signExtend 32 =
      statusOff := by
    have hresults := hg'.results
    dsimp only at hresults
    rw [hresults]
    rfl
  refine Hart.wp_store (guarded_store hg'.status_mem haddr (by decide)) haddr rfl
    (hfault _ (by decide)) (Hart.wp_nil ?_)
  have hvalue : (g.regs.set xA1 statusDone).get xA1 = statusDone :=
    g.regs.get_set_self _ (by decide)
  have hmem := hg'.mem
  dsimp only at hmem ⊢
  rw [hvalue, hmem]

theorem exec_selfLoop (h : Hart C) : h.exec P selfLoop = h := by
  have hexec : h.exec P selfLoop =
      { h with pc := h.pc + 0#32, regs := h.regs.set 0#5 (h.pc + 4#32) } := rfl
  rw [hexec, BitVec.add_zero, h.regs.set_zero]

/-- The hart stays in the loop. -/
theorem run_selfLoop (hloop : prog h.pc = some selfLoop) (k : ℕ) : h.run P prog k = some h := by
  induction k with
  | zero => rfl
  | succ k ih =>
    rw [Hart.run, ih, Option.bind_some, Hart.step, hloop, Option.map_some, exec_selfLoop]

/-- The run of the self-test from `h`: `n` operations under the guard lead to the final loop
in `h'`, with the marker and all results in memory. -/
structure Completes (P : Platform C) (prog : Program) (tests : List Test) (h : Hart C) (n : ℕ)
    (h' : Hart C) : Prop where
  path : Hart.Path P (Guarded P (status h.mem)) prog n h h'
  loop : prog h'.pc = some selfLoop
  marker : status h'.mem = statusDone
  slots : ∀ i v, (values h.mem 0 tests)[i]? = some v → slot h'.mem i = v

/-- **The self-test comes to its end**, from every memory and at every even address. -/
theorem exists_completes (hfault : ∀ addr : Word, addr.toNat < 0x400 → P.fault addr = false)
    {tests : List Test} (hf : Fits 0 tests) (heven : h.pc.toNat % 2 = 0)
    (hcode : prog.Holds h.pc (programOps tests)) : ∃ n h', Completes P prog tests h n h' := by
  have hsplit : programOps tests = prologue ++ (testsCode 0 tests ++ epilogue) ++ [selfLoop] := by
    simp only [programOps, List.append_assoc]
  rw [hsplit, Program.holds_append] at hcode
  obtain ⟨hmain, hloop, -⟩ := hcode
  obtain ⟨n, h', hpath, hpc, hmem⟩ := wp_program hfault hf heven prog hmain
  refine ⟨n, h', hpath, ?_, ?_, fun i v hv => ?_⟩
  · rw [hpc]
    exact hloop
  · rw [hmem]
    exact ByteMem.load_store_word
  · have hi : i < tests.length := by
      rw [← values_length h.mem 0 tests]
      exact (List.getElem?_eq_some_iff.mp hv).1
    have hslots := hf.slots
    rw [hmem, slot_store_status (by omega), ← slot_finalMem hf hv, Nat.zero_add]

namespace Completes

variable {tests : List Test} {n : ℕ} {h' : Hart C} (hc : Completes P prog tests h n h')

include hc

/-- From the loop on nothing changes. -/
theorem run_of_le {k : ℕ} (hk : n ≤ k) : h.run P prog k = some h' := by
  obtain ⟨j, rfl⟩ := Nat.exists_eq_add_of_le hk
  rw [Hart.run_add, hc.path.run, Option.bind_some]
  exact run_selfLoop hc.loop j

/-- The run goes on for ever. -/
theorem exists_run (k : ℕ) : ∃ g, h.run P prog k = some g := by
  rcases le_total n k with hk | hk
  · exact ⟨h', hc.run_of_le hk⟩
  · obtain ⟨j, rfl⟩ := Nat.exists_eq_add_of_le hk
    have hrun := hc.path.run
    rw [Hart.run_add] at hrun
    obtain ⟨g, hg, -⟩ := Option.bind_eq_some_iff.mp hrun
    exact ⟨g, hg⟩

/-- There is an operation at every pc. -/
theorem exists_op {k : ℕ} {g : Hart C} (hg : h.run P prog k = some g) :
    ∃ op, prog g.pc = some op := by
  obtain ⟨g', hg'⟩ := hc.exists_run (k + 1)
  rw [Hart.run, hg, Option.bind_some, Hart.step] at hg'
  obtain ⟨op, hop, -⟩ := Option.map_eq_some_iff.mp hg'
  exact ⟨op, hop⟩

/-- All accesses stay where the firmware has cleared the memory. -/
theorem access_lt {k : ℕ} {g : Hart C} {op : Op} (hg : h.run P prog k = some g)
    (hop : prog g.pc = some op) : ∀ a ∈ g.access P op, a.addr.toNat < 0x400 := by
  rcases Nat.lt_or_ge k n with hk | hk
  · exact (hc.path.guarded k hk g op hg hop).2
  · obtain rfl := Option.some.inj (hg.symm.trans (hc.run_of_le hk))
    obtain rfl := Option.some.inj (hop.symm.trans hc.loop)
    rintro a ⟨⟩

/-- **The marker comes last**: before operation `n` the status word is the one of the start. -/
theorem status_of_lt {k : ℕ} {g : Hart C} (hk : k < n) (hg : h.run P prog k = some g) :
    status g.mem = status h.mem := by
  obtain ⟨op, hop⟩ := hc.exists_op hg
  exact (hc.path.guarded k hk g op hg hop).1

end Completes

end program

/-- **The marker comes with all results, and not before.** The program of any tests that fit in
the result area and whose probes keep to the scratch area, standing anywhere at an even
address, on any hart with memory below `0x400`: the run never ends, for the first `n` operations
the status word stays as it was, and from then on it is the marker and slot `i` has the value of
test `i`. -/
theorem self_test_on_hart {C : Type} (P : Platform C)
    (hfault : ∀ addr : Word, addr.toNat < 0x400 → P.fault addr = false) (tests : List Test)
    (hroom : tests.length ≤ 112) (hscratch : ∀ t ∈ tests, t.probe.InScratch) (prog : Program)
    (h : Hart C) (heven : h.pc.toNat % 2 = 0) (hcode : prog.Holds h.pc (programOps tests)) :
    ∃ n, (∀ k < n, ∃ g, h.run P prog k = some g ∧ status g.mem = status h.mem) ∧
      ∀ k ≥ n, ∃ g, h.run P prog k = some g ∧ status g.mem = statusDone ∧
        ∀ i v, (values h.mem 0 tests)[i]? = some v → slot g.mem i = v := by
  obtain ⟨n, h', hc⟩ := exists_completes hfault ⟨by omega, hscratch⟩ heven hcode
  refine ⟨n, fun k hk => ?_, fun k hk => ⟨h', hc.run_of_le hk, hc.marker, hc.slots⟩⟩
  obtain ⟨g, hg⟩ := hc.exists_run k
  exact ⟨g, hg, hc.status_of_lt hk hg⟩

/-- The tests of loads and stores, on the core without memory protection. -/
theorem self_test_on_hart_memory :
    ∃ k g, (hartReset {} fun _ => 0#32).run (corePlatform {})
        (Program.ofList (programOps Tests.memory)) k = some g ∧
      status g.mem = 0xcafecafe#32 ∧ slot g.mem 1 = 0xffff8000#32 := by
  have hcode : (Program.ofList (programOps Tests.memory)).Holds 0#32 (programOps Tests.memory) :=
    Program.holds_ofList (by decide)
  obtain ⟨n, -, hafter⟩ := self_test_on_hart (corePlatform {}) (fun _ _ => rfl) Tests.memory
    (by decide) (by decide) _ (hartReset {} fun _ => 0#32) rfl hcode
  obtain ⟨g, hg, hstatus, hslots⟩ := hafter n le_rfl
  refine ⟨n, g, hg, hstatus, hslots 1 _ ?_⟩
  rw [values_memory _ (by decide)]
  rfl

end Firmware

end RiscvV2
