import RiscvV2.FetchUnit
import RiscvV2.LongDivision
import Mathlib.Algebra.Order.Ring.Abs

/-!
# The multicycle units

What the RV32M operations are meant to compute, and that the two iterative units compute it.
`MulHolds` and `DivHolds` say what a unit at work knows about the operands it was started
with; one step lemma each carries this from the start to the result. The operands themselves
are only read in the cycle of the start.

The results are given by integer arithmetic, with the two cases in which RISC-V departs from it:
a zero divisor, and the quotient of the smallest number by minus one, which does not fit. The
divider meets these two at once and needs its loop for all others. The loop is ordinary long
division of the magnitudes and is proved as such in `LongDivision`; what is left for this module
is that the wires compute its step, and that the signs are corrected at the end as truncation
towards zero requires.
-/

namespace RiscvV2

/-! ## The RV32M results -/

/-- The result of an RV32M operation. A division by zero gives all ones, its remainder is
the dividend; signed division truncates towards zero. -/
def rv32mResult (op : AluOp) (a b : Word) : Word :=
  match op with
  | .mul => BitVec.ofInt 32 (a.toInt * b.toInt)
  | .mulh => BitVec.ofInt 32 (a.toInt * b.toInt / 2 ^ 32)
  | .mulhsu => BitVec.ofInt 32 (a.toInt * b.toNat / 2 ^ 32)
  | .mulhu => BitVec.ofNat 32 (a.toNat * b.toNat / 2 ^ 32)
  | .div => if b = 0#32 then 0xffffffff#32 else BitVec.ofInt 32 (a.toInt.tdiv b.toInt)
  | .divu => if b = 0#32 then 0xffffffff#32 else BitVec.ofNat 32 (a.toNat / b.toNat)
  | .rem => if b = 0#32 then a else BitVec.ofInt 32 (a.toInt.tmod b.toInt)
  | .remu => if b = 0#32 then a else BitVec.ofNat 32 (a.toNat % b.toNat)
  | _ => 0#32

example : rv32mResult .div 0x80000000#32 0xffffffff#32 = 0x80000000#32 ∧
    rv32mResult .rem 0x80000000#32 0xffffffff#32 = 0#32 := by decide

/-! ## Arithmetic of the divider's wires

Each wire as a natural number. None of them overflows as long as the remainder is below the
divisor, which is part of the loop invariant. -/

section wires

variable (d : DivUnit)

theorem toNat_divTrialRemainder :
    (divTrialRemainder d).toNat =
      2 * (d.remainder.toNat % 2 ^ 32) + d.dividend.toNat / 2 ^ 31 := by
  have hx := d.dividend.isLt
  rw [divTrialRemainder, BitVec.toNat_append, ← Nat.shiftLeft_add_eq_or_of_lt (BitVec.isLt _)]
  simp [Nat.shiftLeft_eq, Nat.shiftRight_eq_div_pow]
  omega

theorem toNat_zero_append_divisor : (0#1 ++ d.divisor).toNat = d.divisor.toNat := by
  rw [BitVec.toNat_append]
  simp

theorem divSubtract_eq :
    divSubtract d = decide (d.divisor.toNat ≤ (divTrialRemainder d).toNat) := by
  rw [divSubtract, BitVec.ult, toNat_zero_append_divisor, ← decide_not]
  simp only [not_lt]

theorem toNat_divNextRemainder :
    (divNextRemainder d).toNat =
      if d.divisor.toNat ≤ (divTrialRemainder d).toNat then
        (divTrialRemainder d).toNat - d.divisor.toNat
      else (divTrialRemainder d).toNat := by
  rw [divNextRemainder, divSubtract_eq]
  simp only [decide_eq_true_eq]
  split_ifs with hfit
  · rw [BitVec.toNat_sub_of_le (by rwa [BitVec.le_def, toNat_zero_append_divisor]),
      toNat_zero_append_divisor]
  · rfl

theorem toNat_divNextQuotient :
    (divNextQuotient d).toNat =
      2 * (d.quotient.toNat % 2 ^ 31) +
        if d.divisor.toNat ≤ (divTrialRemainder d).toNat then 1 else 0 := by
  rw [divNextQuotient, BitVec.toNat_append,
    ← Nat.shiftLeft_add_eq_or_of_lt (BitVec.isLt _), divSubtract_eq, BitVec.toNat_ofBool]
  simp only [BitVec.extractLsb'_toNat, Nat.shiftLeft_eq, Nat.shiftRight_zero]
  split_ifs with hfit
  · simp only [hfit, decide_true, Bool.toNat_true]
    omega
  · simp only [hfit, decide_false, Bool.toNat_false]
    omega

theorem toNat_shift_dividend :
    (d.dividend.extractLsb' 0 31 ++ 0#1).toNat = 2 * d.dividend.toNat % 2 ^ 32 := by
  rw [BitVec.toNat_append, ← Nat.shiftLeft_add_eq_or_of_lt (BitVec.isLt _)]
  simp [Nat.shiftLeft_eq]
  omega

end wires

/-! ## Signs and magnitudes -/

theorem getLsbD_sign (a : Word) : a.getLsbD 31 = decide (a.toInt < 0) := by
  have h : a.getLsbD 31 = a.msb := (BitVec.msb_eq_getLsbD_last a).symm
  rw [h, BitVec.msb_eq_toInt]

/-- The operand as the divider takes it: a negative signed operand is negated. -/
def divMagnitude (op : AluOp) (a : Word) : Word :=
  if op.isSignedDiv ∧ a.getLsbD 31 then ~~~a + 1#32 else a

theorem toNat_divMagnitude_signed {op : AluOp} (h : op.isSignedDiv = true) (a : Word) :
    (divMagnitude op a).toNat = a.toInt.natAbs := by
  have ha := a.isLt
  have hint := BitVec.toInt_eq_toNat_cond a
  rw [divMagnitude, getLsbD_sign, ← BitVec.neg_eq_not_add]
  split_ifs at hint <;> simp only [h, true_and, decide_eq_true_eq] <;> split_ifs <;>
    (try rw [BitVec.toNat_neg]) <;> omega

theorem toNat_divMagnitude_unsigned {op : AluOp} (h : op.isSignedDiv = false) (a : Word) :
    (divMagnitude op a).toNat = a.toNat := by
  rw [divMagnitude, if_neg (by simp [h])]

/-- A magnitude is zero only for zero. -/
theorem divMagnitude_pos (op : AluOp) {b : Word} (hb : b ≠ 0#32) :
    0 < (divMagnitude op b).toNat := by
  have hb' : b.toNat ≠ 0 := fun h => hb (BitVec.eq_of_toNat_eq h)
  cases hop : op.isSignedDiv with
  | true =>
    rw [toNat_divMagnitude_signed hop]
    have : b.toInt ≠ 0 := fun h => hb (BitVec.eq_of_toInt_eq (by rw [h]; rfl))
    omega
  | false =>
    rw [toNat_divMagnitude_unsigned hop]
    omega

/-- Negation by complement and increment is negation of the integer. -/
theorem not_add_one_eq_ofInt {x : Word} {m : ℕ} (h : x.toNat = m) :
    ~~~x + 1#32 = BitVec.ofInt 32 (-(m : ℤ)) := by
  rw [← BitVec.neg_eq_not_add, BitVec.ofInt_neg, BitVec.ofInt_natCast, ← h,
    BitVec.ofNat_toNat, BitVec.setWidth_eq]

theorem eq_ofNat_of_toNat {x : Word} {m : ℕ} (h : x.toNat = m) : x = BitVec.ofNat 32 m := by
  rw [← h, BitVec.ofNat_toNat, BitVec.setWidth_eq]

theorem eq_ofInt_of_toNat {x : Word} {m : ℕ} (h : x.toNat = m) :
    x = BitVec.ofInt 32 (m : ℤ) := by
  rw [BitVec.ofInt_natCast]
  exact eq_ofNat_of_toNat h

/-! ## The divider

`DivRunning` is the loop invariant, with the number of steps done in the counter of the unit. -/

/-- The divider is dividing `a` by `b` and has done `count` of its 32 steps. -/
structure DivRunning (d : DivUnit) (op : AluOp) (a b : Word) : Prop where
  busy : d.busy = true
  notDone : d.done = false
  opHeld : d.op = op
  nonzero : b ≠ 0#32
  count : d.count.toNat < 32
  divisor : d.divisor = divMagnitude op b
  loop : LongDivision.Partway 32 (divMagnitude op a).toNat (divMagnitude op b).toNat
    d.count.toNat d.quotient.toNat d.remainder.toNat d.dividend.toNat
  quotientNeg : d.quotientNeg = (op == .div && (a.getLsbD 31 ^^ b.getLsbD 31))
  remainderNeg : d.remainderNeg = (op == .rem && a.getLsbD 31)

/-- The result register holds the result and `done` is up. -/
structure DivDone (d : DivUnit) (op : AluOp) (a b : Word) : Prop where
  notBusy : d.busy = false
  done : d.done = true
  result : d.result = rv32mResult op a b

/-- The operand pairs whose result is ready at once: a zero divisor, and the one quotient
that does not fit. -/
def divImmediate (op : AluOp) (a b : Word) : Prop :=
  b = 0#32 ∨ (op.isSignedDiv = true ∧ a = 0x80000000#32 ∧ b = 0xffffffff#32)

instance (op : AluOp) (a b : Word) : Decidable (divImmediate op a b) :=
  inferInstanceAs (Decidable (_ ∨ _))

variable {d : DivUnit} {op : AluOp} {a b : Word}

theorem AluOp.isDiv_cases (h : op.isDiv = true) :
    op = .div ∨ op = .divu ∨ op = .rem ∨ op = .remu := by
  cases op <;> simp_all [AluOp.isDiv]

/-- A start on an immediate pair sets the result. -/
theorem divBegin_immediate (hop : op.isDiv = true) (h : divImmediate op a b) :
    DivDone (divBegin d op a b) op a b := by
  rcases h with rfl | ⟨hsigned, rfl, rfl⟩
  · rcases AluOp.isDiv_cases hop with rfl | rfl | rfl | rfl <;> constructor <;>
      simp [divBegin, rv32mResult]
  · rcases AluOp.isDiv_cases hop with rfl | rfl | rfl | rfl
    · constructor <;> simp [divBegin, AluOp.isSignedDiv, rv32mResult]
    · cases hsigned
    · constructor <;> simp [divBegin, AluOp.isSignedDiv, rv32mResult]
    · cases hsigned

/-- Any other start begins the loop. -/
theorem divBegin_running (hd : d.done = false) (h : ¬ divImmediate op a b) :
    DivRunning (divBegin d op a b) op a b ∧ (divBegin d op a b).count = 0#6 := by
  obtain ⟨hb, hov⟩ := not_or.mp h
  have hdef : divBegin d op a b =
      { d with
        op := op
        count := 0#6
        dividend := divMagnitude op a
        divisor := divMagnitude op b
        quotient := 0#32
        remainder := 0#33
        quotientNeg := op == .div && (a.getLsbD 31 ^^ b.getLsbD 31)
        remainderNeg := op == .rem && a.getLsbD 31
        busy := true } := by
    simp only [divBegin]
    rw [if_neg hb, if_neg hov]
    rfl
  rw [hdef]
  exact ⟨⟨rfl, hd, rfl, hb, by simp, rfl, LongDivision.Partway.start (BitVec.isLt _), rfl, rfl⟩,
    rfl⟩

/-- The loop invariant in the next iteration, as far as the arithmetic goes. -/
theorem DivRunning.partway_next (h : DivRunning d op a b) :
    LongDivision.Partway 32 (divMagnitude op a).toNat (divMagnitude op b).toNat
      (d.count.toNat + 1) (divNextQuotient d).toNat (divNextRemainder d).toNat
      (d.dividend.extractLsb' 0 31 ++ 0#1).toNat := by
  have hpos := divMagnitude_pos op h.nonzero
  have hstep := h.loop.step h.count hpos
  have hr := h.loop.remainder_lt hpos
  have hbound := (divMagnitude op b).isLt
  -- with fewer than 32 digits done, the quotient loses no bit in the shift
  have hq : d.quotient.toNat < 2 ^ 31 := by
    have hn := (divMagnitude op a).isLt
    rw [h.loop.quotient]
    refine lt_of_le_of_lt (Nat.div_le_self _ _) ?_
    rw [Nat.div_lt_iff_lt_mul (by positivity), ← Nat.pow_add]
    exact lt_of_lt_of_le hn (Nat.pow_le_pow_right (by norm_num) (by have := h.count; omega))
  -- the remainder is below the divisor, so its top bit is free
  have htrial : (divTrialRemainder d).toNat =
      2 * d.remainder.toNat + d.dividend.toNat / 2 ^ 31 := by
    rw [toNat_divTrialRemainder, Nat.mod_eq_of_lt (by omega)]
  rw [toNat_divNextQuotient, toNat_divNextRemainder, toNat_shift_dividend, h.divisor, htrial,
    Nat.mod_eq_of_lt hq]
  exact hstep

/-- Before its last step the loop goes on. -/
theorem divIterate_running (h : DivRunning d op a b) (hc : d.count ≠ 31#6) :
    DivRunning (divIterate d) op a b ∧ (divIterate d).count.toNat = d.count.toNat + 1 := by
  have hlt := h.count
  have hne : d.count.toNat ≠ 31 := fun he => hc (BitVec.eq_of_toNat_eq he)
  have hcount : (d.count + 1#6).toNat = d.count.toNat + 1 := by
    rw [BitVec.toNat_add]
    simp
    omega
  have hdef : divIterate d =
      { d with
        dividend := d.dividend.extractLsb' 0 31 ++ 0#1
        quotient := divNextQuotient d
        remainder := divNextRemainder d
        count := d.count + 1#6 } := by
    simp only [divIterate]
    rw [if_neg hc]
  rw [hdef]
  refine ⟨{ h with count := ?_, loop := ?_ }, hcount⟩
  · simp only [hcount]
    omega
  · simp only [hcount]
    exact h.partway_next

/-- The sign-corrected quotient and remainder of the magnitudes are the RV32M results. -/
theorem divCorrect_eq (hop : op.isDiv = true) (hb : b ≠ 0#32) {q r : Word}
    (hq : q.toNat = (divMagnitude op a).toNat / (divMagnitude op b).toNat)
    (hr : r.toNat = (divMagnitude op a).toNat % (divMagnitude op b).toNat) :
    (if op = .div ∨ op = .divu then
      if op == .div && (a.getLsbD 31 ^^ b.getLsbD 31) then ~~~q + 1#32 else q
    else if op == .rem && a.getLsbD 31 then ~~~r + 1#32 else r) = rv32mResult op a b := by
  rcases AluOp.isDiv_cases hop with rfl | rfl | rfl | rfl
  · rw [toNat_divMagnitude_signed rfl, toNat_divMagnitude_signed rfl] at hq
    rw [not_add_one_eq_ofInt hq]
    simp only [true_or, if_true, beq_self_eq_true, Bool.true_and, getLsbD_sign, rv32mResult, hb,
      if_false, LongDivision.tdiv_of_natAbs a.toInt b.toInt]
    split_ifs
    · rfl
    · exact eq_ofInt_of_toNat hq
  · rw [toNat_divMagnitude_unsigned rfl, toNat_divMagnitude_unsigned rfl] at hq
    have hne : (AluOp.divu == AluOp.div) = false := rfl
    simp only [reduceCtorEq, false_or, if_true, hne, Bool.false_and, Bool.false_eq_true,
      if_false, rv32mResult, hb]
    exact eq_ofNat_of_toNat hq
  · rw [toNat_divMagnitude_signed rfl, toNat_divMagnitude_signed rfl] at hr
    rw [not_add_one_eq_ofInt hr]
    simp only [reduceCtorEq, or_self, if_false, beq_self_eq_true, Bool.true_and, getLsbD_sign,
      rv32mResult, hb, LongDivision.tmod_of_natAbs a.toInt b.toInt, decide_eq_true_eq]
    split_ifs
    · rfl
    · exact eq_ofInt_of_toNat hr
  · rw [toNat_divMagnitude_unsigned rfl, toNat_divMagnitude_unsigned rfl] at hr
    have hne : (AluOp.remu == AluOp.rem) = false := rfl
    simp only [reduceCtorEq, or_self, if_false, hne, Bool.false_and, Bool.false_eq_true,
      rv32mResult, hb]
    exact eq_ofNat_of_toNat hr

/-- The last step leaves the result. -/
theorem divIterate_done (hop : op.isDiv = true) (h : DivRunning d op a b)
    (hc : d.count = 31#6) : DivDone (divIterate d) op a b := by
  have hnext := h.partway_next
  have hcount : d.count.toNat + 1 = 32 := by rw [hc]; rfl
  rw [hcount] at hnext
  obtain ⟨hq, hr⟩ := hnext.finish
  have hr32 : ((divNextRemainder d).extractLsb' 0 32).toNat = (divNextRemainder d).toNat := by
    have hlt := hnext.remainder_lt (divMagnitude_pos op h.nonzero)
    have hbound := (divMagnitude op b).isLt
    rw [BitVec.extractLsb'_toNat, Nat.shiftRight_zero, Nat.mod_eq_of_lt (by omega)]
  have hres := divCorrect_eq hop h.nonzero (a := a) hq (hr32.trans hr)
  rw [← h.quotientNeg, ← h.remainderNeg] at hres
  refine ⟨?_, ?_, ?_⟩
  · simp [divIterate, hc]
  · simp [divIterate, hc]
  · simpa [divIterate, hc, h.opHeld] using hres

/-! ## The multiplier -/

/-- The first factor as an integer. -/
def mulOperandA (op : AluOp) (a : Word) : ℤ :=
  if op = .mulh ∨ op = .mulhsu then a.toInt else a.toNat

/-- The second factor as an integer. -/
def mulOperandB (op : AluOp) (b : Word) : ℤ := if op = .mulh then b.toInt else b.toNat

/-- The multiplier holds the extended factors. -/
structure MulRunning (m : MulUnit) (op : AluOp) (a b : Word) : Prop where
  busy : m.busy = true
  notDone : m.done = false
  opHeld : m.op = op
  aReg : m.aReg.toInt = mulOperandA op a
  bReg : m.bReg.toInt = mulOperandB op b

/-- The multiplier holds the product. -/
structure MulDone (m : MulUnit) (op : AluOp) (a b : Word) : Prop where
  notBusy : m.busy = false
  done : m.done = true
  opHeld : m.op = op
  product : m.product.toInt = mulOperandA op a * mulOperandB op b

variable {m : MulUnit}

theorem toInt_zeroExtend (a : Word) : (a.setWidth 33).toInt = a.toNat := by
  have ha := a.isLt
  rw [BitVec.toInt_eq_toNat_of_lt]
  · simp
    omega
  · simp
    omega

theorem mulBegin_running (hd : m.done = false) : MulRunning (mulBegin m op a b) op a b where
  busy := rfl
  notDone := hd
  opHeld := rfl
  aReg := by
    simp only [mulBegin, mulOperandA]
    split_ifs
    · exact BitVec.toInt_signExtend_of_le (by decide)
    · exact toInt_zeroExtend a
  bReg := by
    simp only [mulBegin, mulOperandB]
    split_ifs
    · exact BitVec.toInt_signExtend_of_le (by decide)
    · exact toInt_zeroExtend b

/-- The 66-bit product of two 33-bit factors does not overflow. -/
theorem toInt_mul_signExtend (x y : BitVec 33) :
    (x.signExtend 66 * y.signExtend 66).toInt = x.toInt * y.toInt := by
  have hx := BitVec.le_toInt x
  have hx' := BitVec.toInt_lt (x := x)
  have hy := BitVec.le_toInt y
  have hy' := BitVec.toInt_lt (x := y)
  -- each factor is at most `2 ^ 32` in absolute value
  have hbound : |x.toInt * y.toInt| ≤ 2 ^ 32 * 2 ^ 32 := by
    rw [abs_mul]
    exact mul_le_mul (abs_le.mpr ⟨by omega, by omega⟩) (abs_le.mpr ⟨by omega, by omega⟩)
      (abs_nonneg _) (by norm_num)
  obtain ⟨hlo, hhi⟩ := abs_le.mp hbound
  rw [BitVec.toInt_mul, BitVec.toInt_signExtend_of_le (by decide),
    BitVec.toInt_signExtend_of_le (by decide), Int.bmod_eq_of_le (by omega) (by omega)]

theorem mulMultiply_done (h : MulRunning m op a b) : MulDone (mulMultiply m) op a b where
  notBusy := rfl
  done := rfl
  opHeld := h.opHeld
  product := by
    rw [← h.aReg, ← h.bReg]
    exact toInt_mul_signExtend m.aReg m.bReg

theorem extract_low_of_toInt {x : BitVec 66} {z : ℤ} (h : x.toInt = z) :
    x.extractLsb' 0 32 = BitVec.ofInt 32 z := by
  have hint := BitVec.toInt_eq_toNat_cond x
  refine BitVec.eq_of_toNat_eq ?_
  rw [BitVec.extractLsb'_toNat, BitVec.toNat_ofInt, ← h, Nat.shiftRight_zero]
  split_ifs at hint <;> omega

theorem extract_high_of_toInt {x : BitVec 66} {z : ℤ} (h : x.toInt = z) :
    x.extractLsb' 32 32 = BitVec.ofInt 32 (z / 2 ^ 32) := by
  have hint := BitVec.toInt_eq_toNat_cond x
  refine BitVec.eq_of_toNat_eq ?_
  rw [BitVec.extractLsb'_toNat, BitVec.toNat_ofInt, ← h, Nat.shiftRight_eq_div_pow]
  split_ifs at hint <;> omega

/-- The result wire of the multiplier. -/
theorem mulResult_eq {p : Pipe} (hop : op.isMul = true) (h : MulDone p.mul op a b) :
    mulResult p = rv32mResult op a b := by
  have hcases : op = .mul ∨ op = .mulh ∨ op = .mulhsu ∨ op = .mulhu := by
    cases op <;> simp_all [AluOp.isMul]
  have hlow := extract_low_of_toInt h.product
  have hhigh := extract_high_of_toInt h.product
  rcases hcases with rfl | rfl | rfl | rfl
  · rw [mulResult, h.opHeld, if_pos rfl, hlow]
    simp [mulOperandA, mulOperandB, rv32mResult, BitVec.ofInt_mul]
  · rw [mulResult, h.opHeld, if_neg (by decide), hhigh]
    rfl
  · rw [mulResult, h.opHeld, if_neg (by decide), hhigh]
    rfl
  · rw [mulResult, h.opHeld, if_neg (by decide), hhigh]
    simp only [mulOperandA, mulOperandB, rv32mResult, reduceCtorEq, or_self, if_false]
    exact BitVec.ofInt_natCast 32 (a.toNat * b.toNat / 2 ^ 32)

/-! ## The divider in the core

From the unit to whole runs of the core: the instruction stays in EX, its operands are not read
again, and no input can disturb the count. -/

section core

variable {n : ℕ} {c : Config} {s : Core} {i : CoreIn n}

/-- While a division is not done, its instruction stays in EX and only the divider runs. -/
theorem coreNext_dividing (h : CoreStaged s) (hreset : i.reset = false)
    (hEx : s.pipe.idEx.valid = true) (hop : divIsOp s.pipe = true)
    (hd : s.pipe.div.done = false) :
    (coreNext c s i).pipe.idEx = s.pipe.idEx ∧
      (coreNext c s i).pipe.div = divNext s.pipe i.dmemReady := by
  have hm : mStall s.pipe = true := by simp [mStall, divStall, hEx, hop, hd]
  rw [coreNext_pipe hreset, pipeNext_busy h.pipe hEx hm]
  exact ⟨rfl, rfl⟩

theorem divNext_of_running {p : Pipe} {r : Bool} (h : DivRunning p.div op a b) :
    divNext p r = divIterate p.div := by
  simp only [divNext, divStart]
  rw [if_neg (by simp [h.busy]), if_pos h.busy, h.notDone, Bool.false_and, ← h.notDone]

theorem divNext_of_start {p : Pipe} {r : Bool} (h : divStart p r = true) :
    divNext p r =
      divBegin p.div p.idEx.ctrl.aluOp (exAluSrcA p) (exAluSrcB p) := by
  have hd : p.div.done = false := by
    simp only [divStart, Bool.and_eq_true, Bool.not_eq_true'] at h
    exact h.1.2
  simp only [divNext]
  rw [if_pos h, hd, Bool.false_and, ← hd]

/-- The state of the core while it divides `a` by `b`, after `k` steps of the loop. -/
structure Dividing (s₀ s : Core) (a b : Word) (k : ℕ) : Prop where
  staged : CoreStaged s
  held : s.pipe.idEx = s₀.pipe.idEx
  running : DivRunning s.pipe.div s₀.pipe.idEx.ctrl.aluOp a b
  steps : s.pipe.div.count.toNat = k

theorem Dividing.next {s₀ : Core} {k : ℕ} (h : Dividing s₀ s a b k) (hreset : i.reset = false)
    (hEx : s₀.pipe.idEx.valid = true) (hop : s₀.pipe.idEx.ctrl.aluOp.isDiv = true) :
    (k < 31 → Dividing s₀ (coreNext c s i) a b (k + 1)) ∧
      (k = 31 → DivDone (coreNext c s i).pipe.div s₀.pipe.idEx.ctrl.aluOp a b) := by
  have hEx' : s.pipe.idEx.valid = true := by rw [h.held, hEx]
  have hop' : divIsOp s.pipe = true := by rw [divIsOp, h.held, hop]
  obtain ⟨hheld, hdiv⟩ := coreNext_dividing (c := c) h.staged hreset hEx' hop' h.running.notDone
  rw [divNext_of_running h.running] at hdiv
  refine ⟨?_, ?_⟩
  · intro hk
    have hc : s.pipe.div.count ≠ 31#6 := by
      intro he
      have := h.steps
      rw [he] at this
      simp at this
      omega
    obtain ⟨hrun, hsteps⟩ := divIterate_running h.running hc
    rw [h.steps] at hsteps
    exact ⟨coreNext_staged h.staged, hheld.trans h.held, hdiv ▸ hrun, hdiv ▸ hsteps⟩
  · intro hk
    have hc : s.pipe.div.count = 31#6 := by
      refine BitVec.eq_of_toNat_eq ?_
      rw [h.steps, hk]
      rfl
    rw [hdiv]
    exact divIterate_done hop h.running hc

/-- The state after `k + 1` cycles of a division that has to run its loop. -/
theorem dividing_stateAt {x : ℕ → CoreIn c.numExtInterrupts} (hs : CoreStaged s)
    (hx : ∀ t < 33, (x t).reset = false) (hstart : divStart s.pipe (x 0).dmemReady = true)
    (hnot : ¬ divImmediate s.pipe.idEx.ctrl.aluOp (exAluSrcA s.pipe) (exAluSrcB s.pipe))
    {k : ℕ} (hk : k < 32) :
    Dividing s ((coreSystem c).stateAt s x (k + 1)) (exAluSrcA s.pipe) (exAluSrcB s.pipe) k := by
  obtain ⟨⟨⟨⟨hEx, hop⟩, -⟩, hd⟩, -⟩ : (((s.pipe.idEx.valid = true ∧ divIsOp s.pipe = true) ∧
      s.pipe.div.busy = false) ∧ s.pipe.div.done = false) ∧ _ = _ := by
    simpa only [divStart, Bool.and_eq_true, Bool.not_eq_true'] using hstart
  -- by induction on the steps of the loop; the cycle of the start is the base case
  induction k with
  | zero =>
    obtain ⟨hheld, hdiv⟩ := coreNext_dividing (c := c) hs (hx 0 (by omega)) hEx hop hd
    obtain ⟨hrun, hcount⟩ := divBegin_running hd hnot
    rw [divNext_of_start hstart] at hdiv
    refine ⟨coreNext_staged hs, hheld, ?_, ?_⟩
    · exact hdiv ▸ hrun
    · exact (congrArg (fun d => d.count.toNat) hdiv).trans (by rw [hcount])
  | succ k ih =>
    exact ((ih (by omega)).next (hx (k + 1) (by omega)) hEx hop).1 (by omega)

/-- The number of cycles from `div_start` to `div_done`. -/
def divLatency (op : AluOp) (a b : Word) : ℕ := if divImmediate op a b then 1 else 33

/-- **The divider**: whatever the inputs do after `div_start`, the operands of that cycle
are divided. `div_done` rises after `divLatency` cycles and not before, no second start
happens meanwhile, and the result is the RV32M one. -/
theorem div_start_completes (c : Config) {s : Core} (hs : (coreSystem c).Reachable s)
    (x : ℕ → CoreIn c.numExtInterrupts) (hstart : divStart s.pipe (x 0).dmemReady = true)
    (hx : ∀ t < divLatency s.pipe.idEx.ctrl.aluOp (exAluSrcA s.pipe) (exAluSrcB s.pipe),
      (x t).reset = false) :
    let op := s.pipe.idEx.ctrl.aluOp
    let a := exAluSrcA s.pipe
    let b := exAluSrcB s.pipe
    let latency := divLatency op a b
    op.isDiv = true ∧ s.pipe.div.done = false ∧
    (∀ t, 0 < t → t < latency → ((coreSystem c).stateAt s x t).pipe.div.done = false) ∧
    (∀ t, 0 < t → t ≤ latency →
      divStart ((coreSystem c).stateAt s x t).pipe (x t).dmemReady = false) ∧
    ((coreSystem c).stateAt s x latency).pipe.div.done = true ∧
    ((coreSystem c).stateAt s x latency).pipe.div.result = rv32mResult op a b := by
  intro op a b latency
  change ∀ t < latency, (x t).reset = false at hx
  have hst := coreStaged_of_reachable hs
  obtain ⟨⟨⟨⟨hEx, hop⟩, -⟩, hd⟩, -⟩ : (((s.pipe.idEx.valid = true ∧ divIsOp s.pipe = true) ∧
      s.pipe.div.busy = false) ∧ s.pipe.div.done = false) ∧ _ = _ := by
    simpa only [divStart, Bool.and_eq_true, Bool.not_eq_true'] using hstart
  have hnostart : ∀ {p : Pipe} {r : Bool}, p.div.busy = true ∨ p.div.done = true →
      divStart p r = false := by
    rintro p r (h | h) <;> simp [divStart, h]
  by_cases himm : divImmediate op a b
  case pos =>
    -- the start itself leaves the result
    have hlat : latency = 1 := if_pos himm
    have hdone : DivDone ((coreSystem c).stateAt s x 1).pipe.div op a b := by
      obtain ⟨-, hdiv⟩ := coreNext_dividing (c := c) hst (hx 0 (by omega)) hEx hop hd
      rw [divNext_of_start hstart] at hdiv
      exact hdiv ▸ divBegin_immediate hop himm
    rw [hlat]
    refine ⟨hop, hd, fun t h0 h1 => by omega, fun t h0 h1 => ?_, hdone.done, hdone.result⟩
    obtain rfl : t = 1 := by omega
    exact hnostart (.inr hdone.done)
  case neg =>
    -- one cycle for the start and 32 for the loop
    have hlat : latency = 33 := if_neg himm
    have hx33 : ∀ t < 33, (x t).reset = false := fun t ht => hx t (by omega)
    have hrun : ∀ k < 32, Dividing s ((coreSystem c).stateAt s x (k + 1)) a b k :=
      fun k hk => dividing_stateAt hst hx33 hstart himm hk
    have hdone : DivDone ((coreSystem c).stateAt s x 33).pipe.div op a b :=
      ((hrun 31 (by omega)).next (hx33 32 (by omega)) hEx hop).2 rfl
    have hloop : ∀ t, 0 < t → t < 33 →
        DivRunning ((coreSystem c).stateAt s x t).pipe.div op a b := by
      intro t h0 h1
      obtain ⟨k, rfl⟩ : ∃ k, t = k + 1 := ⟨t - 1, by omega⟩
      exact (hrun k (by omega)).running
    rw [hlat]
    refine ⟨hop, hd, fun t h0 h1 => (hloop t h0 h1).notDone, fun t h0 h1 => ?_, hdone.done,
      hdone.result⟩
    rcases Nat.lt_or_eq_of_le h1 with hlt | rfl
    · exact hnostart (.inl (hloop t h0 hlt).busy)
    · exact hnostart (.inr hdone.done)

/-- `addi x1, x0, -20; addi x2, x0, 3; div x3, x1, x2` up to the start of the division. -/
def divInputs : List (CoreIn 32) :=
  [{}, { imemReady := true, imemInstr := 0xfec00093#32 }, {},
    { imemReady := true, imemInstr := 0x00300113#32 }, {},
    { imemReady := true, imemInstr := 0x0220c1b3#32 }, {}]

theorem div_start_completes_neg_twenty :
    ((coreSystem {}).stateAt ((coreSystem {}).after (coreReset {}) divInputs)
      (fun _ => {}) 33).pipe.div.result = -6#32 := by
  have h := div_start_completes {} (s := (coreSystem {}).after (coreReset {}) divInputs)
    (Clocked.Reachable.after (.init rfl) (fun _ _ => trivial) divInputs) (fun _ => {})
    (by decide) (fun _ _ => rfl)
  have hop : ((coreSystem {}).after (coreReset {}) divInputs).pipe.idEx.ctrl.aluOp = .div := by
    decide
  have ha : exAluSrcA ((coreSystem {}).after (coreReset {}) divInputs).pipe = -20#32 := by
    decide
  have hb : exAluSrcB ((coreSystem {}).after (coreReset {}) divInputs).pipe = 3#32 := by
    decide
  simp only [hop, ha, hb] at h
  exact h.2.2.2.2.2

end core

end RiscvV2
