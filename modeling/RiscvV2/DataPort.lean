import RiscvV2.FetchUnit

/-!
# The data port

What the core drives on the data port against what its loads and stores meant. A recorder
keeps the accesses of the loads and stores that left EX and those the memory has completed;
at any time the two differ by the access that MEM is still driving. `DataSafe` carries the
alignment and range checks of EX over to MEM.

The port has no acknowledge of a request, only `dmem_ready`, which completes the access that is
driven in the same cycle. So an access could be lost by being withdrawn too early, or made twice
by being driven too long. The books exclude both: completed and committed accesses are the same
list, but for the one in MEM. No assumption about `dmem_ready` is made; it may come at any time
and also when nothing is driven.
-/

namespace RiscvV2

variable {n : ℕ} {c : Config} {p : Pipe} {r : Bool}

/-! ## Accesses -/

/-- A data access as the port shows it. -/
structure Access where
  write : Bool
  addr : Word
  writeData : Word
  wstrb : BitVec 4
  deriving DecidableEq, Repr

/-- The access driven on the port. -/
def portAccess (p : Pipe) : Option Access :=
  if dmemReadEn p || dmemWriteEn p then
    some ⟨dmemWriteEn p, dmemAddr p, dmemWriteData p, dmemWstrb p⟩
  else none

/-- The access completed in this cycle: an enable together with `dmem_ready`. -/
def completedAccess (p : Pipe) (dmemReady : Bool) : Option Access :=
  if dmemReady then portAccess p else none

/-- The access of a load or store that leaves EX in this cycle without a trap. -/
def leavingAccess (c : Config) (p : Pipe) (dmemReady : Bool) : Option Access :=
  if exFires p dmemReady && (exTrap c p dmemReady).isNone && p.idEx.ctrl.isMem then
    some
      { write := p.idEx.ctrl.memWrite
        addr := exAluResult p
        writeData := lsuWriteData p.idEx.ctrl.memSize ((exAluResult p).extractLsb' 0 2)
          p.idEx.ctrl.memWrite (exStoreData p)
        wstrb := lsuWstrb p.idEx.ctrl.memSize ((exAluResult p).extractLsb' 0 2)
          p.idEx.ctrl.memWrite }
  else none

/-- The bytes an access touches: those a load extracts, and the strobed lanes of a store. -/
def dataTouches (p : Pipe) (b : ℕ) : Prop :=
  (dmemReadEn p = true ∧ (dmemAddr p).toNat ≤ b ∧
    b < (dmemAddr p).toNat + 2 ^ p.exMem.memSize.toNat) ∨
  (dmemWriteEn p = true ∧ ∃ lane < 4, (dmemWstrb p).getLsbD lane = true ∧
    b = (dmemAddr p).toNat / 4 * 4 + lane)

/-! ## Wires in the phases of the back end

What an edge does to the port, for each phase of `Stages`. -/

theorem dmemEn_eq (p : Pipe) :
    (dmemReadEn p || dmemWriteEn p) =
      (p.exMem.valid && (p.exMem.memRead || p.exMem.memWrite)) := by
  rw [dmemReadEn, dmemWriteEn, Bool.and_or_distrib_left]

theorem portAccess_of_exMem_invalid (h : p.exMem.valid = false) : portAccess p = none := by
  simp [portAccess, dmemReadEn, dmemWriteEn, h]

theorem completedAccess_of_memStall (h : memStall p r = true) :
    completedAccess p r = none := by
  simp only [memStall, Bool.and_eq_true, Bool.not_eq_true'] at h
  rw [completedAccess, h.2]
  rfl

/-- Unless MEM waits, the access of the port is completed. -/
theorem completedAccess_of_moving (h : memStall p r = false) :
    completedAccess p r = portAccess p := by
  cases r with
  | true => rfl
  | false =>
    have hnone : portAccess p = none := by
      rw [memStall, Bool.not_false, Bool.and_true, ← dmemEn_eq] at h
      rw [portAccess, if_neg (by simp [h])]
    rw [hnone]
    rfl

theorem leavingAccess_of_not_fires (h : exFires p r = false) : leavingAccess c p r = none := by
  simp [leavingAccess, h]

/-- What the port shows after the instruction in EX has left it. -/
theorem portAccess_leave (hs : memStall p r = false) (hm : mStall p = false)
    (hEx : p.idEx.valid = true) (hd : p.idEx.ctrl.Coherent) {q : Pipe}
    (hMem : q.exMem = exMemNext c p r) : portAccess q = leavingAccess c p r := by
  have hf : exFires p r = true := exFires_eq_true.mpr ⟨hs, hm, hEx⟩
  rw [exMemNext, if_neg (by simp [hs])] at hMem
  cases hmem : p.idEx.ctrl.isMem with
  | false =>
    obtain ⟨hr, hw⟩ := Bool.or_eq_false_iff.mp hmem
    rw [leavingAccess, if_neg (by simp [hmem]), portAccess, if_neg]
    simp [dmemReadEn, dmemWriteEn, hMem, hr, hw]
  | true =>
    have hmret : p.idEx.ctrl.isMret = false := by
      have hj := (hd.mem hmem).2.2.2.2.2.2.1
      simp only [Ctrl.isJump, Bool.or_eq_false_iff] at hj
      exact hj.1.1.1
    cases htrap : exTrap c p r with
    | some t =>
      rw [leavingAccess, if_neg (by simp [htrap])]
      -- a trap keeps the instruction from entering MEM
      apply portAccess_of_exMem_invalid
      simp [hMem, htrap]
    | none =>
      have hmem' : (p.idEx.ctrl.memRead || p.idEx.ctrl.memWrite) = true := hmem
      rw [leavingAccess, if_pos (by simp [hf, htrap, hmem]), portAccess, if_pos]
      · simp [dmemWriteEn, dmemAddr, dmemWriteData, dmemWstrb, hMem, hEx, hm, htrap, hmret]
      · simpa [dmemReadEn, dmemWriteEn, hMem, hEx, hm, htrap, hmret] using hmem'

/-- **The port follows the instructions**: an access is on the port after an edge because it
was there and is not completed, or because its instruction left EX. -/
theorem portAccess_next {i : PipeIn n} (h : Staged p) :
    (completedAccess p i.dmemReady).toList ++ (portAccess (pipeNext c p i)).toList =
      (portAccess p).toList ++ (leavingAccess c p i.dmemReady).toList := by
  cases h.phase i.dmemReady with
  | wait hEx hMem hs =>
    have hf : exFires p i.dmemReady = false := by simp [exFires, hs]
    rw [completedAccess_of_memStall hs, leavingAccess_of_not_fires hf,
      pipeNext_wait h hEx hs, Option.toList_none, List.append_nil, List.nil_append]
    rfl
  | flow hEx hs =>
    have hf : exFires p i.dmemReady = false := by simp [exFires, hEx]
    have hnone : portAccess (pipeNext c p i) = none := by
      rw [pipeNext_flow h hEx hs]
      exact portAccess_of_exMem_invalid rfl
    rw [completedAccess_of_moving hs, leavingAccess_of_not_fires hf, hnone]
  | busy hEx hId hMem hs hm =>
    have hf : exFires p i.dmemReady = false := by simp [exFires, hm]
    have hnone : portAccess (pipeNext c p i) = none := by
      rw [pipeNext_busy h hEx hm]
      exact portAccess_of_exMem_invalid rfl
    rw [completedAccess_of_moving hs, leavingAccess_of_not_fires hf, hnone]
  | leave hEx hId hMem hs hm =>
    rw [completedAccess_of_moving hs,
      portAccess_leave hs hm hEx (h.coherent hEx) (q := pipeNext c p i) rfl]

/-! ## Alignment and range

The checks are made in EX, on the sum of two operands and with a small adder of its own for the
low bits. What is driven a cycle later comes from a register, so the properties have to be
carried there. -/

/-- The access that MEM drives, or is about to drive, has passed the checks of EX. -/
structure DataSafe (c : Config) (m : ExMem) : Prop where
  load_not_store : m.memRead = true → m.memWrite = false
  size : m.memSize ≠ 3#2
  aligned : misaligned m.memSize (m.aluResult.extractLsb' 0 2) = false
  inRange : accessFault c m.aluResult = false

/-- The small adder of the misalignment check gives the low bits of the address. -/
theorem exAddrLo_eq (hd : p.idEx.ctrl.Coherent) (hmem : p.idEx.ctrl.isMem = true) :
    exAddrLo p = (exAluResult p).extractLsb' 0 2 := by
  have hop := (hd.mem hmem).1
  have hdiv : divIsOp p = false := by rw [divIsOp, hop]; rfl
  have hmul : mulIsOp p = false := by rw [mulIsOp, hop]; rfl
  have hres : exAluResult p = exAluSrcA p + exAluSrcB p := by
    rw [exAluResult, if_neg (by simp [hdiv]), if_neg (by simp [hmul]), hop]
    rfl
  rw [hres, exAddrLo]
  refine BitVec.eq_of_toNat_eq ?_
  simp only [BitVec.toNat_add, BitVec.extractLsb'_toNat, Nat.shiftRight_zero]
  omega

/-- A load or store that leaves EX without a trap has passed the checks. -/
theorem dataSafe_of_leave (hf : exFires p r = true) (hd : p.idEx.ctrl.Coherent)
    (htrap : exTrap c p r = none) (hmem : p.idEx.ctrl.isMem = true) :
    DataSafe c (exMemNext c p r) := by
  obtain ⟨hs, -, -⟩ := exFires_eq_true.mp hf
  have hsync : exSyncTrap c p = none := by
    simp only [exTrap, hf, if_true] at htrap
    cases he : exSyncTrap c p with
    | none => rfl
    | some t => simp [he] at htrap
  simp only [exSyncTrap] at hsync
  -- no branch of the exception logic was taken: `h3` to `h6` are the passed checks
  split_ifs at hsync with h1 h2 h3 h4 h5 h6
  obtain ⟨-, -, -, -, hsize, -⟩ := hd.mem hmem
  have hmis : misaligned p.idEx.ctrl.memSize ((exAluResult p).extractLsb' 0 2) = false := by
    rw [← exAddrLo_eq hd hmem]
    rcases Bool.or_eq_true_iff.mp hmem with hr | hw
    · simpa [exMisalignLoad, hr] using h3
    · simpa [exMisalignStore, hw] using h4
  have hrange : accessFault c (exAluResult p) = false := by
    rcases Bool.or_eq_true_iff.mp hmem with hr | hw
    · simpa [exAccessLoad, hr, h3] using h5
    · simpa [exAccessStore, hw, h4] using h6
  rw [exMemNext, if_neg (by simp [hs])]
  exact ⟨hd.load_not_store, hsize, hmis, hrange⟩

/-- **Step lemma**: what is on the port has passed the checks. -/
theorem pipeNext_dataSafe {i : PipeIn n} (h : Staged p)
    (hsafe : (portAccess p).isSome = true → DataSafe c p.exMem)
    (hp : (portAccess (pipeNext c p i)).isSome = true) :
    DataSafe c (pipeNext c p i).exMem := by
  cases h.phase i.dmemReady with
  | wait hEx hMem hs =>
    rw [pipeNext_wait h hEx hs] at hp ⊢
    exact hsafe hp
  | flow hEx hs =>
    rw [pipeNext_flow h hEx hs, portAccess_of_exMem_invalid rfl] at hp
    cases hp
  | busy hEx hId hMem hs hm =>
    rw [pipeNext_busy h hEx hm, portAccess_of_exMem_invalid rfl] at hp
    cases hp
  | leave hEx hId hMem hs hm =>
    have hd := h.coherent hEx
    rw [portAccess_leave hs hm hEx hd (q := pipeNext c p i) rfl] at hp
    simp only [leavingAccess] at hp
    split_ifs at hp with hcond
    · simp only [Bool.and_eq_true, Option.isNone_iff_eq_none] at hcond
      exact dataSafe_of_leave hcond.1.1 hd hcond.1.2 hcond.2
    · cases hp

theorem mod_of_not_misaligned :
    ∀ size lo : BitVec 2, size ≠ 3#2 → misaligned size lo = false →
      lo.toNat % 2 ^ size.toNat = 0 := by
  decide

/-- The strobed lanes of an aligned store are its bytes. -/
theorem lsuWstrb_lane :
    ∀ size lo : BitVec 2, ∀ lane < 4, size ≠ 3#2 → lo.toNat % 2 ^ size.toNat = 0 →
      (lsuWstrb size lo true).getLsbD lane = true →
      lo.toNat ≤ lane ∧ lane < lo.toNat + 2 ^ size.toNat := by
  decide

section safe

variable {m : ExMem} (h : DataSafe c m)

include h

theorem DataSafe.size_cases :
    2 ^ m.memSize.toNat = 1 ∨ 2 ^ m.memSize.toNat = 2 ∨ 2 ^ m.memSize.toNat = 4 := by
  have hcases : ∀ size : BitVec 2, size ≠ 3#2 →
      2 ^ size.toNat = 1 ∨ 2 ^ size.toNat = 2 ∨ 2 ^ size.toNat = 4 := by decide
  exact hcases _ h.size

/-- An access that passed the alignment check has an aligned address. -/
theorem DataSafe.aligned_addr : m.aluResult.toNat % 2 ^ m.memSize.toNat = 0 := by
  have hlo := mod_of_not_misaligned _ _ h.size h.aligned
  rw [BitVec.extractLsb'_toNat, Nat.shiftRight_zero] at hlo
  obtain hz | hz | hz := h.size_cases
  · rw [hz] at hlo ⊢
    omega
  · rw [hz] at hlo ⊢
    omega
  · rw [hz] at hlo ⊢
    omega

/-- With a word-aligned limit the last byte is in range if the first one is. -/
theorem DataSafe.bytes_inRange (hfaults : c.trapAccessFaults = true)
    (hlimit : c.dmemLimit.toNat % 4 = 0) :
    c.dmemBase.toNat ≤ m.aluResult.toNat ∧
      m.aluResult.toNat + 2 ^ m.memSize.toNat ≤ c.dmemLimit.toNat := by
  have hr := h.inRange
  simp only [accessFault, hfaults, Bool.true_and, Bool.or_eq_false_iff, Bool.not_eq_false',
    BitVec.ult, decide_eq_true_eq, decide_eq_false_iff_not, not_lt] at hr
  have hal := h.aligned_addr
  obtain ⟨hlo, hhi⟩ := hr
  refine ⟨hlo, ?_⟩
  obtain hz | hz | hz := h.size_cases
  · rw [hz] at hal ⊢
    omega
  · rw [hz] at hal ⊢
    omega
  · rw [hz] at hal ⊢
    omega

end safe

/-- The bytes an access touches are those of its size from its address on. -/
theorem DataSafe.touches (h : DataSafe c p.exMem) {b : ℕ} (hb : dataTouches p b) :
    (dmemAddr p).toNat ≤ b ∧ b < (dmemAddr p).toNat + 2 ^ p.exMem.memSize.toNat := by
  rcases hb with ⟨-, hlo, hhi⟩ | ⟨hw, lane, hlane, hstrb, rfl⟩
  · exact ⟨hlo, hhi⟩
  · have hmod := mod_of_not_misaligned _ _ h.size h.aligned
    rw [dmemWstrb, hw] at hstrb
    obtain ⟨h1, h2⟩ := lsuWstrb_lane _ _ lane hlane h.size hmod hstrb
    rw [BitVec.extractLsb'_toNat, Nat.shiftRight_zero] at h1 h2
    simp only [dmemAddr]
    omega

/-! ## Whole runs -/

/-- What is recorded of a run: the accesses that left EX and those that are completed. -/
structure DataLog where
  left : List Access := []
  completed : List Access := []

/-- The core without further resets, with its accesses recorded. -/
def dataSystem (c : Config) :
    Clocked (Clocked.Recorded Core DataLog) (CoreIn c.numExtInterrupts) :=
  (coreSystem c).record {}
    (fun _ _ i => i.reset = false)
    (fun g s i =>
      { left := g.left ++ (leavingAccess c s.pipe i.dmemReady).toList
        completed := g.completed ++ (completedAccess s.pipe i.dmemReady).toList })

/-- The invariant of a run: nothing is lost or duplicated between EX and the port, and what
is on the port is safe. -/
structure DataInv (c : Config) (s : Core) (g : DataLog) : Prop where
  accounts : g.left = g.completed ++ (portAccess s.pipe).toList
  safe : (portAccess s.pipe).isSome = true → DataSafe c s.pipe.exMem

theorem dataInv_of_reachable {t : Clocked.Recorded Core DataLog}
    (ht : (dataSystem c).Reachable t) : DataInv c t.sys t.log := by
  refine Clocked.Reachable.recorded (I := DataInv c) ?_ ?_ ht
  · rintro s rfl
    exact ⟨rfl, fun hp => by cases hp⟩
  · intro s g i hs _ hreset hI
    have hst := (coreStaged_of_reachable hs).pipe
    have hnext : (coreSystem c).next s i = coreNext c s i := rfl
    refine ⟨?_, ?_⟩
    · have hport := portAccess_next (c := c) (i := pipeIn c s i) hst
      rw [hnext, coreNext_pipe hreset, hI.accounts, List.append_assoc, List.append_assoc]
      exact congrArg (g.completed ++ ·) hport.symm
    · intro hp
      rw [hnext, coreNext_pipe hreset] at hp ⊢
      exact pipeNext_dataSafe hst hI.safe hp

/-- While MEM waits, the whole data port is stable. -/
theorem port_stable {s : Core} {i : CoreIn n} (hst : CoreStaged s) (hreset : i.reset = false)
    (hen : (dmemReadEn s.pipe || dmemWriteEn s.pipe) = true) (hr : i.dmemReady = false) :
    (coreNext c s i).pipe.exMem = s.pipe.exMem := by
  have hs : memStall s.pipe (pipeIn c s i).dmemReady = true := by
    rw [memStall, ← dmemEn_eq, hen, pipeIn_dmemReady, hr]
    rfl
  cases hst.pipe.phase (pipeIn c s i).dmemReady with
  | wait hEx hMem hs => rw [coreNext_pipe hreset, pipeNext_wait hst.pipe hEx hs]
  | flow hEx hs' | busy hEx hId hMem hs' hm | leave hEx hId hMem hs' hm =>
    rw [hs] at hs'
    cases hs'

/-- An instruction fires in EX once: the edge takes it out of EX. -/
theorem fires_once {s : Core} {i : CoreIn n} (hst : CoreStaged s) (hreset : i.reset = false)
    (hf : exFires s.pipe i.dmemReady = true) : (coreNext c s i).pipe.idEx.valid = false := by
  obtain ⟨-, hm, hEx⟩ := exFires_eq_true.mp hf
  rw [coreNext_pipe hreset, pipeNext_leave hst.pipe hEx hm]
  dsimp only
  split_ifs <;> rfl

/-- **Data-port protocol**: in every run without further resets the port is stable until
`dmem_ready`, never reads and writes at once, completes exactly the accesses of the loads and
stores that left EX without a trap, in order, up to the one that is still on the port, and
only drives aligned and, where checked, in-range accesses. -/
theorem data_port_protocol (c : Config) {t : Clocked.Recorded Core DataLog}
    (ht : (dataSystem c).Reachable t) :
    (∀ i : CoreIn c.numExtInterrupts, i.reset = false →
      (dmemReadEn t.sys.pipe || dmemWriteEn t.sys.pipe) = true → i.dmemReady = false →
      let p' := (coreNext c t.sys i).pipe
      dmemAddr p' = dmemAddr t.sys.pipe ∧ dmemWriteData p' = dmemWriteData t.sys.pipe ∧
        dmemWstrb p' = dmemWstrb t.sys.pipe ∧ dmemReadEn p' = dmemReadEn t.sys.pipe ∧
        dmemWriteEn p' = dmemWriteEn t.sys.pipe) ∧
    ¬ (dmemReadEn t.sys.pipe = true ∧ dmemWriteEn t.sys.pipe = true) ∧
    (t.log.left = t.log.completed ++ (portAccess t.sys.pipe).toList ∧
      ∀ i : CoreIn c.numExtInterrupts, i.reset = false →
        exFires t.sys.pipe i.dmemReady = true →
        (coreNext c t.sys i).pipe.idEx.valid = false) ∧
    ((dmemReadEn t.sys.pipe || dmemWriteEn t.sys.pipe) = true →
      (dmemAddr t.sys.pipe).toNat % 2 ^ t.sys.pipe.exMem.memSize.toNat = 0 ∧
      (c.trapAccessFaults = true → c.dmemLimit.toNat % 4 = 0 →
        ∀ b, dataTouches t.sys.pipe b →
          c.dmemBase.toNat ≤ b ∧ b < c.dmemLimit.toNat)) := by
  have hst := coreStaged_of_reachable ht.sys
  have hI := dataInv_of_reachable ht
  have hsafe : (dmemReadEn t.sys.pipe || dmemWriteEn t.sys.pipe) = true →
      DataSafe c t.sys.pipe.exMem := by
    intro hen
    refine hI.safe ?_
    rw [portAccess, if_pos hen]
    rfl
  refine ⟨?_, ?_, ⟨hI.accounts, ?_⟩, ?_⟩
  · intro i hreset hen hr p'
    have hMem : p'.exMem = t.sys.pipe.exMem := port_stable hst hreset hen hr
    simp only [dmemAddr, dmemWriteData, dmemWstrb, dmemReadEn, dmemWriteEn, hMem, and_self]
  · rintro ⟨hread, hwrite⟩
    have hs := hsafe (by rw [hread, Bool.true_or])
    rw [dmemReadEn, Bool.and_eq_true] at hread
    rw [dmemWriteEn, hs.load_not_store hread.2, Bool.and_false] at hwrite
    cases hwrite
  · intro i hreset hf
    exact fires_once hst hreset hf
  · intro hen
    have hs := hsafe hen
    refine ⟨hs.aligned_addr, fun hfaults hlimit b hb => ?_⟩
    obtain ⟨hlo, hhi⟩ := hs.bytes_inRange hfaults hlimit
    obtain ⟨h1, h2⟩ := hs.touches hb
    simp only [dmemAddr] at h1 h2
    omega

/-- `sw x0, 8(x0)` up to the cycle in which the store is on the port. -/
def storeInputs : List (CoreIn 32) :=
  [{}, { imemReady := true, imemInstr := 0x00002423#32 }, {}, {}]

theorem data_port_protocol_store :
    ((dataSystem {}).after ⟨coreReset {}, {}⟩ storeInputs).log.left =
      ((dataSystem {}).after ⟨coreReset {}, {}⟩ storeInputs).log.completed ++
        [⟨true, 8#32, 0#32, 0b1111#4⟩] := by
  have hreach := Clocked.Reachable.after_allows (M := dataSystem {}) (s := ⟨coreReset {}, {}⟩)
    (.init ⟨rfl, rfl⟩) storeInputs
    ⟨⟨trivial, rfl⟩, ⟨trivial, rfl⟩, ⟨trivial, rfl⟩, ⟨trivial, rfl⟩, trivial⟩
  have hport : portAccess ((dataSystem {}).after ⟨coreReset {}, {}⟩ storeInputs).sys.pipe =
      some ⟨true, 8#32, 0#32, 0b1111#4⟩ := by
    decide
  rw [(data_port_protocol {} hreach).2.2.1.1, hport]
  rfl

end RiscvV2
