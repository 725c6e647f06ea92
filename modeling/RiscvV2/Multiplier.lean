import RiscvV2.MulDiv

/-!
# The multiplier in the core

The two cycles of a multiplication, from `mul_start` to `mul_done`, and who owns the
multicycle units: the instruction they were started for stays in EX for as long as either
unit is busy or done.

A multiplication is quicker than a division and simpler: one cycle to take the operands,
extended to 33 bits with or without their sign, and one for the product. What takes care is
ownership. A unit that stayed busy after its instruction had gone would hand its result to the
next one, and two units at work would both claim the result wire.
-/

namespace RiscvV2

variable {n : ℕ} {c : Config} {s : Core} {i : CoreIn n} {op : AluOp} {a b : Word}

/-! ## The product -/

/-- The 64-bit product, with each factor extended as the operation reads it. -/
def mulProduct (op : AluOp) (a b : Word) : BitVec 64 :=
  match op with
  | .mulh => a.signExtend 64 * b.signExtend 64
  | .mulhsu => a.signExtend 64 * b.setWidth 64
  | _ => a.setWidth 64 * b.setWidth 64

/-- The word of the product that the operation returns. -/
def mulWord (op : AluOp) (a b : Word) : Word :=
  if op = .mul then (mulProduct op a b).extractLsb' 0 32
  else (mulProduct op a b).extractLsb' 32 32

theorem ofInt_toNat (a : Word) : BitVec.ofInt 64 a.toNat = a.setWidth 64 := by
  rw [BitVec.ofInt_natCast, BitVec.ofNat_toNat]

theorem mulProduct_eq (hop : op.isMul = true) :
    mulProduct op a b = BitVec.ofInt 64 (mulOperandA op a * mulOperandB op b) := by
  have hcases : op = .mul ∨ op = .mulh ∨ op = .mulhsu ∨ op = .mulhu := by
    cases op <;> simp_all [AluOp.isMul]
  rw [BitVec.ofInt_mul]
  rcases hcases with rfl | rfl | rfl | rfl
  · exact (congrArg₂ (· * ·) (ofInt_toNat a) (ofInt_toNat b)).symm
  · rfl
  · exact (congrArg (a.signExtend 64 * ·) (ofInt_toNat b)).symm
  · exact (congrArg₂ (· * ·) (ofInt_toNat a) (ofInt_toNat b)).symm

theorem extract_low_ofInt (z : ℤ) :
    (BitVec.ofInt 64 z).extractLsb' 0 32 = BitVec.ofInt 32 z := by
  refine BitVec.eq_of_toNat_eq ?_
  rw [BitVec.extractLsb'_toNat, BitVec.toNat_ofInt, BitVec.toNat_ofInt, Nat.shiftRight_zero]
  omega

theorem extract_high_ofInt (z : ℤ) :
    (BitVec.ofInt 64 z).extractLsb' 32 32 = BitVec.ofInt 32 (z / 2 ^ 32) := by
  refine BitVec.eq_of_toNat_eq ?_
  rw [BitVec.extractLsb'_toNat, BitVec.toNat_ofInt, BitVec.toNat_ofInt,
    Nat.shiftRight_eq_div_pow]
  omega

/-- The result wire shows the right word of the 64-bit product. -/
theorem mulResult_eq_mulWord {p : Pipe} (hop : op.isMul = true) (h : MulDone p.mul op a b) :
    mulResult p = mulWord op a b := by
  have hlow := extract_low_of_toInt h.product
  have hhigh := extract_high_of_toInt h.product
  rw [← extract_low_ofInt, ← mulProduct_eq hop] at hlow
  rw [← extract_high_ofInt, ← mulProduct_eq hop] at hhigh
  rw [mulResult, h.opHeld, hlow, hhigh]
  rfl

/-! ## The two cycles -/

/-- While a multiplication is not done, its instruction stays in EX and only the multiplier
runs. -/
theorem coreNext_multiplying (h : CoreStaged s) (hreset : i.reset = false)
    (hEx : s.pipe.idEx.valid = true) (hop : s.pipe.idEx.ctrl.aluOp.isMul = true)
    (hd : s.pipe.mul.done = false) :
    (coreNext c s i).pipe.idEx = s.pipe.idEx ∧
      (coreNext c s i).pipe.mul = mulNext s.pipe i.dmemReady := by
  have hm : mStall s.pipe = true := by simp [mStall, mulStall, mulIsOp, hEx, hop, hd]
  rw [coreNext_pipe hreset, pipeNext_busy h.pipe hEx hm]
  exact ⟨rfl, rfl⟩

/-- The first cycle takes the operands. -/
theorem mulNext_of_start {p : Pipe} {r : Bool} (h : mulStart p r = true) :
    MulRunning (mulNext p r) p.idEx.ctrl.aluOp (exAluSrcA p) (exAluSrcB p) := by
  obtain ⟨-, -, -, hd, -⟩ := mulStart_eq_true.mp h
  simp only [mulNext]
  rw [if_pos h]
  exact mulBegin_running (by simp [hd])

/-- The second cycle multiplies what was taken. -/
theorem mulNext_of_running {p : Pipe} {r : Bool} (h : MulRunning p.mul op a b) :
    MulDone (mulNext p r) op a b := by
  have hstart : ¬mulStart p r = true := by simp [mulStart, h.busy]
  simp only [mulNext]
  rw [if_neg hstart, if_pos h.busy]
  exact mulMultiply_done ⟨h.busy, by simp [h.notDone], h.opHeld, h.aReg, h.bReg⟩

theorem mulStart_of_active {p : Pipe} {r : Bool} (h : p.mul.busy = true ∨ p.mul.done = true) :
    mulStart p r = false := by
  rcases h with h | h <;> simp [mulStart, h]

/-! ## Ownership of the units

The recorder keeps the ID/EX register of the last start, so that the statement can say that the
instruction which the unit works for has not been replaced. -/

/-- One of the two units is busy or done. -/
def unitActive (p : Pipe) : Bool := p.mul.busy || p.mul.done || (p.div.busy || p.div.done)

/-- Core runs recorded with the ID/EX register of the last start of a unit. -/
def startedSystem (c : Config) :
    Clocked (Clocked.Recorded Core IdEx) (CoreIn c.numExtInterrupts) :=
  (coreSystem c).record {} (fun _ _ _ => True) fun g s i =>
    if !i.reset && (mulStart s.pipe i.dmemReady || divStart s.pipe i.dmemReady) then s.pipe.idEx
    else g

/-- The multiplier works after the edge only if it did before or is started. -/
theorem mul_active_of_next {p : Pipe} {r : Bool}
    (h : (mulNext p r).busy = true ∨ (mulNext p r).done = true) :
    mulStart p r = true ∨ unitActive p = true := by
  by_cases hstart : mulStart p r = true
  · exact .inl hstart
  · refine .inr ?_
    simp only [mulNext] at h
    rw [if_neg hstart] at h
    split_ifs at h with hbusy
    · simp [unitActive, hbusy]
    · rcases h with hb | hd
      · exact absurd hb hbusy
      · obtain ⟨hd, -⟩ := Bool.and_eq_true_iff.mp hd
        simp [unitActive, hd]

/-- So does the divider. -/
theorem div_active_of_next {p : Pipe} {r : Bool}
    (h : (divNext p r).busy = true ∨ (divNext p r).done = true) :
    divStart p r = true ∨ unitActive p = true := by
  by_cases hstart : divStart p r = true
  · exact .inl hstart
  · refine .inr ?_
    simp only [divNext] at h
    rw [if_neg hstart] at h
    split_ifs at h with hbusy
    · simp [unitActive, hbusy]
    · rcases h with hb | hd
      · exact absurd hb hbusy
      · obtain ⟨hd, -⟩ := Bool.and_eq_true_iff.mp hd
        simp [unitActive, hd]

theorem unitActive_next {p : Pipe} {x : PipeIn n} (h : unitActive (pipeNext c p x) = true) :
    (mulStart p x.dmemReady || divStart p x.dmemReady) = true ∨ unitActive p = true := by
  rw [unitActive, Bool.or_eq_true, Bool.or_eq_true, Bool.or_eq_true] at h
  rcases h with hmul | hdiv
  · exact (mul_active_of_next hmul).imp_left fun hs => by rw [hs, Bool.true_or]
  · exact (div_active_of_next hdiv).imp_left fun hs => by rw [hs, Bool.or_true]

/-- With no instruction in EX both units are idle. -/
theorem Staged.unitActive_empty {p : Pipe} (h : Staged p) (hEx : p.idEx.valid = false) :
    unitActive p = false := by
  obtain ⟨hmb, hmd⟩ := h.mul_idle hEx
  obtain ⟨hdb, hdd⟩ := h.div_idle hEx
  simp [unitActive, hmb, hmd, hdb, hdd]

/-- **Step lemma**: a unit that works after the edge works for the instruction in EX. -/
theorem Staged.unitActive_held {p : Pipe} {x : PipeIn n} (h : Staged p)
    (ha : unitActive (pipeNext c p x) = true) : (pipeNext c p x).idEx = p.idEx := by
  cases h.phase x.dmemReady with
  | wait hEx hMem hs => rw [pipeNext_wait h hEx hs]
  | flow hEx hs =>
    have hidle : unitActive (pipeNext c p x) = unitActive p := by
      rw [pipeNext_flow h hEx hs]
      rfl
    rw [hidle, h.unitActive_empty hEx] at ha
    cases ha
  | busy hEx hId hMem hs hm => rw [pipeNext_busy h hEx hm]
  | leave hEx hId hMem hs hm =>
    -- the instruction that leaves takes the done flag with it
    obtain ⟨hmb, hmd⟩ := h.mul_leave (r := x.dmemReady) hEx hm
    obtain ⟨hdb, hdd⟩ := h.div_leave (r := x.dmemReady) hEx hm
    rw [pipeNext_leave h hEx hm] at ha
    simp [unitActive, hmb, hmd, hdb, hdd] at ha

theorem started_of_reachable {t : Clocked.Recorded Core IdEx}
    (ht : (startedSystem c).Reachable t) :
    unitActive t.sys.pipe = true → t.sys.pipe.idEx = t.log := by
  refine Clocked.Reachable.recorded (I := fun s g => unitActive s.pipe = true → s.pipe.idEx = g)
    ?_ ?_ ht
  · rintro s rfl ha
    cases ha
  · intro s g i hs _ _ hI ha
    have hnext : (coreSystem c).next s i = coreNext c s i := rfl
    rw [hnext] at ha ⊢
    cases hreset : i.reset with
    | true =>
      rw [coreNext_of_reset hreset] at ha
      cases ha
    | false =>
      rw [coreNext_pipe hreset] at ha ⊢
      have hheld := (coreStaged_of_reachable hs).pipe.unitActive_held ha
      rw [hheld, Bool.not_false, Bool.true_and]
      split_ifs with hstart
      · rfl
      · rcases unitActive_next ha with h | h
        · exact absurd h hstart
        · exact hI h

/-- At most one of the flags is set. -/
def AtMostOne (flags : List Bool) : Prop := flags.count true ≤ 1

/-- The two units never work at the same time, and neither is busy and done at once. -/
theorem Staged.atMostOne {p : Pipe} (h : Staged p) :
    AtMostOne [p.mul.busy, p.mul.done, p.div.busy, p.div.done] := by
  have hflags : ∀ mb md db dd : Bool, ¬(mb = true ∧ md = true) → ¬(db = true ∧ dd = true) →
      ¬((mb = true ∨ md = true) ∧ (db = true ∨ dd = true)) →
      [mb, md, db, dd].count true ≤ 1 := by decide
  refine hflags _ _ _ _ h.mulOnce h.divOnce ?_
  rintro ⟨hmul, hdiv⟩
  obtain ⟨-, hop⟩ := h.mulHeld hmul
  obtain ⟨-, hop'⟩ := h.divHeld hdiv
  revert hop hop'
  cases p.idEx.ctrl.aluOp <;> decide

/-- **The units belong to the instruction in EX** that they were started for, one of them at
a time. -/
theorem units_owned {t : Clocked.Recorded Core IdEx} (ht : (startedSystem c).Reachable t) :
    let p := t.sys.pipe
    AtMostOne [p.mul.busy, p.mul.done, p.div.busy, p.div.done] ∧
      (unitActive p = true →
        p.idEx.valid = true ∧ p.idEx = t.log ∧ p.idEx.ctrl.isMulDiv = true) := by
  intro p
  have hst : Staged p := (coreStaged_of_reachable ht.sys).pipe
  refine ⟨hst.atMostOne, fun ha => ?_⟩
  have hlog := started_of_reachable ht ha
  rw [unitActive, Bool.or_eq_true, Bool.or_eq_true, Bool.or_eq_true] at ha
  rcases ha with hmul | hdiv
  · obtain ⟨hEx, hop⟩ := hst.mulHeld hmul
    exact ⟨hEx, hlog, by simp [Ctrl.isMulDiv, hop]⟩
  · obtain ⟨hEx, hop⟩ := hst.divHeld hdiv
    exact ⟨hEx, hlog, by simp [Ctrl.isMulDiv, hop]⟩

/-- Two cycles of a multiplication. -/
theorem mul_two_cycles {x : ℕ → CoreIn c.numExtInterrupts} (hs : CoreStaged s)
    (hx : ∀ t < 2, (x t).reset = false) (hstart : mulStart s.pipe (x 0).dmemReady = true) :
    let op := s.pipe.idEx.ctrl.aluOp
    MulRunning ((coreSystem c).stateAt s x 1).pipe.mul op (exAluSrcA s.pipe)
        (exAluSrcB s.pipe) ∧
      MulDone ((coreSystem c).stateAt s x 2).pipe.mul op (exAluSrcA s.pipe)
        (exAluSrcB s.pipe) := by
  intro op
  obtain ⟨hEx, hop, -, hd, -⟩ := mulStart_eq_true.mp hstart
  obtain ⟨hheld, hmul⟩ := coreNext_multiplying (c := c) hs (hx 0 (by omega)) hEx hop hd
  have hrun : MulRunning (coreNext c s (x 0)).pipe.mul op (exAluSrcA s.pipe)
      (exAluSrcB s.pipe) := by
    rw [hmul]
    exact mulNext_of_start hstart
  obtain ⟨-, hmul'⟩ := coreNext_multiplying (c := c) (i := x 1) (coreNext_staged hs)
    (hx 1 (by omega)) (by rw [hheld, hEx]) (by rw [hheld, hop]) hrun.notDone
  refine ⟨hrun, ?_⟩
  change MulDone (coreNext c (coreNext c s (x 0)) (x 1)).pipe.mul _ _ _
  rw [hmul']
  exact mulNext_of_running hrun

/-- **The multiplier.** Two cycles after `mul_start`, and not before, `mul_done` rises with
the product of the operands of that cycle; and in every run the units work for nobody but
the instruction in EX. -/
theorem mul_start_completes (c : Config) :
    (∀ (s : Core) (x : ℕ → CoreIn c.numExtInterrupts), (coreSystem c).Reachable s →
      mulStart s.pipe (x 0).dmemReady = true → (∀ t < 2, (x t).reset = false) →
      let st := fun t => ((coreSystem c).stateAt s x t).pipe
      s.pipe.idEx.ctrl.aluOp.isMul = true ∧
        (st 0).mul.done = false ∧ (st 1).mul.done = false ∧ (st 2).mul.done = true ∧
        (∀ t, 0 < t → t ≤ 2 → mulStart (st t) (x t).dmemReady = false) ∧
        mulResult (st 2) =
          mulWord s.pipe.idEx.ctrl.aluOp (exAluSrcA s.pipe) (exAluSrcB s.pipe)) ∧
    ∀ t, (startedSystem c).Reachable t →
      let p := t.sys.pipe
      AtMostOne [p.mul.busy, p.mul.done, p.div.busy, p.div.done] ∧
        (unitActive p = true →
          p.idEx.valid = true ∧ p.idEx = t.log ∧ p.idEx.ctrl.isMulDiv = true) := by
  refine ⟨?_, fun t ht => units_owned ht⟩
  intro s x hs hstart hx st
  obtain ⟨-, hop, -, hd, -⟩ := mulStart_eq_true.mp hstart
  obtain ⟨hrun, hdone⟩ := mul_two_cycles (c := c) (coreStaged_of_reachable hs) hx hstart
  refine ⟨hop, hd, hrun.notDone, hdone.done, ?_, mulResult_eq_mulWord hop hdone⟩
  intro t h0 h2
  obtain rfl | rfl : t = 1 ∨ t = 2 := by omega
  · exact mulStart_of_active (.inl hrun.busy)
  · exact mulStart_of_active (.inr hdone.done)

/-- `addi x1, x0, -20; addi x2, x0, 3; mulhsu x3, x1, x2` up to the start of the
multiplication. -/
def mulInputs : List (CoreIn 32) :=
  [{}, { imemReady := true, imemInstr := 0xfec00093#32 }, {},
    { imemReady := true, imemInstr := 0x00300113#32 }, {},
    { imemReady := true, imemInstr := 0x0220a1b3#32 }, {}]

theorem mul_start_completes_mulhsu :
    mulResult ((coreSystem {}).stateAt ((coreSystem {}).after (coreReset {}) mulInputs)
      (fun _ => {}) 2).pipe = 0xffffffff#32 := by
  obtain ⟨-, -, -, -, -, hresult⟩ := (mul_start_completes {}).1
    ((coreSystem {}).after (coreReset {}) mulInputs) (fun _ => {})
    (Clocked.Reachable.after (.init rfl) (fun _ _ => trivial) mulInputs) (by decide)
    (fun _ _ => rfl)
  rw [hresult]
  decide

end RiscvV2
