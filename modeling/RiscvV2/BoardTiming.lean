import RiscvV2.BoardRun
import RiscvV2.Schedule

/-!
# Timing on the board

With the block RAMs of the board every wait has a fixed length, so the cycles in which the
instructions leave EX follow from the program alone. The gap after an instruction is two
cycles, three if it accesses memory, four if it redirects the fetch unit, and the time that
the next instruction spends in a multicycle unit.

`untilEx` counts down to the next instruction in EX. What it relies on is `FrontTimed`: the
fetch unit works ahead of an instruction in EX, and with IF/ID and EX empty MEM is idle.

The proof is a countdown. In each cycle without a departure `remaining` falls by one, and at a
departure it is set to the gap of the next instruction; so the departures are where it reaches
zero, and their times are the sums of the gaps. Everything that the gap depends on (whether the
instruction accesses memory, redirects, or multiplies) is read off the sequential machine, and
the data on the way are those of the refinement.
-/

namespace RiscvV2

/-! ## Costs of the sequential machine

The costs are functions of the state of the sequential machine alone. A redirect costs its
cycles also when it goes to the address that follows. -/

/-- The next instruction redirects the fetch unit, be it to the address that follows. -/
def Seq.redirects (c : Config) (imem : Word → Word) (s : Seq) : Bool :=
  let d := riscvDecode (imem s.pc)
  let a := s.regs d.ctrl.rs1
  let b := s.regs d.ctrl.rs2
  (instrTrap c d.ctrl s.pc (instrResult d.ctrl s.pc d.imm a b)).isSome ||
    d.ctrl.isMret || d.ctrl.jalr || d.ctrl.jal ||
    (d.ctrl.branchKind != .none && branchCond d.ctrl.branchKind a b)

/-- The cycles that the next instruction is held in EX by a multicycle unit. -/
def Seq.exLatency (imem : Word → Word) (s : Seq) : ℕ :=
  let d := (riscvDecode (imem s.pc)).ctrl
  if d.aluOp.isMul then 2
  else if d.aluOp.isDiv then divLatency d.aluOp (s.regs d.rs1) (s.regs d.rs2)
  else 0

/-- The cycles from the departure of the next instruction to the one after it. -/
def Seq.gap (c : Config) (imem : Word → Word) (s : Seq) : ℕ :=
  (if s.redirects c imem then 4 else if (s.effect c imem).access.isSome then 3 else 2) +
    (seqStep c imem s).exLatency imem

variable {c : Config} {p : Pipe} {r : Bool}

/-- The redirect wire is up exactly for an instruction that redirects. -/
theorem Executes.redirects_eq {imem : Word → Word} {a : Seq}
    (h : Executes p r (imem a.pc) a.pc (a.regs (riscvDecode (imem a.pc)).ctrl.rs1)
      (a.regs (riscvDecode (imem a.pc)).ctrl.rs2)) :
    (exRedirect c p r).isSome = a.redirects c imem := by
  have hd := riscvDecode_coherent (imem a.pc)
  have hbranch : (p.idEx.ctrl.branchKind ≠ .none ∧ exBranchCond p = true) ↔
      ((riscvDecode (imem a.pc)).ctrl.branchKind != .none &&
        branchCond (riscvDecode (imem a.pc)).ctrl.branchKind
          (a.regs (riscvDecode (imem a.pc)).ctrl.rs1)
          (a.regs (riscvDecode (imem a.pc)).ctrl.rs2)) = true := by
    rw [Bool.and_eq_true, bne_iff_ne, exBranchCond, h.ctrlEq]
    refine and_congr_right fun hk => ?_
    have hop : (riscvDecode (imem a.pc)).ctrl.isMulDiv = false := by
      by_contra hop
      have hj := (hd.mulDiv (Bool.eq_true_of_not_eq_false hop)).2.2.2.2.2.2.2.1
      simp [Ctrl.isJump, hk] at hj
    obtain ⟨huse1, huse2⟩ := hd.branch hk
    rw [h.srcA hop huse1, h.srcB hop huse2]
  rw [exRedirect, h.fires, if_pos rfl, h.exTrap_eq, Seq.redirects, if_congr hbranch rfl rfl,
    h.ctrlEq]
  -- both sides are the same case distinction
  generalize instrTrap c _ _ _ = trap
  generalize (_ && _) = taken
  cases trap.isSome <;> cases (riscvDecode (imem a.pc)).ctrl.isMret <;>
    cases (riscvDecode (imem a.pc)).ctrl.jalr <;> cases (riscvDecode (imem a.pc)).ctrl.jal <;>
    cases taken <;> rfl

/-- A redirecting instruction makes no access. -/
theorem leavingAccess_of_redirect (hd : p.idEx.ctrl.Coherent)
    (hr : (exRedirect c p r).isSome = true) : leavingAccess c p r = none := by
  rw [leavingAccess, if_neg]
  simp only [Bool.and_eq_true, not_and]
  rintro ⟨hf, htrap⟩ hmem
  obtain ⟨-, -, -, -, -, -, hjump, -⟩ := hd.mem hmem
  simp only [Ctrl.isJump, Bool.or_eq_false_iff] at hjump
  obtain ⟨⟨⟨hmret, hjalr⟩, hjal⟩, hbranch⟩ := hjump
  rw [Option.isNone_iff_eq_none] at htrap
  simp [exRedirect, hf, htrap, hmret, hjalr, hjal] at hr
  simp [hr.1] at hbranch

/-- An instruction that has just entered EX stays for its latency. -/
theorem exRemaining_eq_exLatency {imem : Word → Word} {s : Core} {g : RunLog} {a : Seq}
    (h : Agrees imem s g a) (hst : CoreStaged s) (ho : Operands s.pipe)
    (hEx : s.pipe.idEx.valid = true) (hidle : UnitsIdle s.pipe) :
    exRemaining s.pipe = a.exLatency imem := by
  obtain ⟨hissued, -⟩ := h.front.idEx hEx
  have hd := riscvDecode_coherent (imem a.pc)
  rw [exRemaining, Seq.exLatency, mulIsOp, divIsOp, hissued.ctrlEq]
  split_ifs with hmul hdiv
  · simp [mulRemaining, hidle.mulDone, hidle.mulBusy]
  · have hop : (riscvDecode (imem a.pc)).ctrl.isMulDiv = true := by
      rw [Ctrl.isMulDiv, hdiv, Bool.or_true]
    obtain ⟨huse1, huse2, hsrcA, hsrcB, -⟩ := hd.mulDiv hop
    have hsettled := h.back.settled ho.zero (hst.pipe.idEx_exMem hEx)
    have hA : exAluSrcA s.pipe = a.regs (riscvDecode (imem a.pc)).ctrl.rs1 := by
      rw [exAluSrcA, hissued.ctrlEq, hsrcA, if_neg Bool.false_ne_true, hsettled,
        ho.forwardA hEx hidle (by rw [hissued.ctrlEq, huse1]), hissued.ctrlEq]
    have hB : exAluSrcB s.pipe = a.regs (riscvDecode (imem a.pc)).ctrl.rs2 := by
      rw [exAluSrcB, hissued.ctrlEq, hsrcB, if_neg Bool.false_ne_true, hsettled,
        ho.forwardB hEx hidle (by rw [hissued.ctrlEq, huse2]), hissued.ctrlEq]
    rw [hA, hB]
    simp [divRemaining, hidle.divDone, hidle.divBusy]
  · rfl

/-- With EX empty the units stay idle. -/
theorem unitsIdle_next {n : ℕ} {i : PipeIn n} (hst : Staged p) (hEx : p.idEx.valid = false) :
    UnitsIdle (pipeNext c p i) := by
  have hidle := hst.units_idle hEx
  cases hst.phase i.dmemReady with
  | wait _ _ hs =>
    rw [pipeNext_wait hst hEx hs]
    exact ⟨hidle.mulBusy, hidle.mulDone, hidle.divBusy, hidle.divDone⟩
  | flow _ hs =>
    rw [pipeNext_flow hst hEx hs]
    exact ⟨hidle.mulBusy, hidle.mulDone, hidle.divBusy, hidle.divDone⟩
  | busy hEx' | leave hEx' => exact absurd (hEx.symm.trans hEx') Bool.false_ne_true

/-! ## The front end counts down

From the states of the fetch unit and of IF/ID the distance to the next instruction in EX is
known. A redirect, an access in MEM and a unit in EX are the three things that can change it. -/

/-- The number of cycles until EX is occupied. -/
def untilEx (s : Wrapper) : ℕ :=
  if s.core.pipe.idEx.valid then 0
  else if s.core.pipe.ifId.valid then if dmemAcc s && !s.dmemAccQ then 2 else 1
  else if s.core.fetch.ifPendingValid then 2
  else 3

/-- The fetch unit works ahead of an instruction in EX, and with IF/ID and EX empty there is
nothing in the fetch buffer and no access on the data port. -/
structure FrontTimed (s : Wrapper) : Prop where
  ahead : s.core.pipe.idEx.valid = true → ¬ s.core.fetch.Idle
  quiet : s.core.Empty → dmemAcc s = false ∧ s.core.fetch.ifBufValid = false

section board

variable {w : WrapperConfig} {imem₀ : BitVec w.addrWidth → Word} {s : Board w} {g : BramLog w}
  {i : WrapperIn w.numExtInterrupts}

theorem boardNext_core (s : Board w) (i : WrapperIn w.numExtInterrupts) :
    (boardNext s i).wrapper.core = coreNext (coreConfig w) s.wrapper.core (boardCoreIn s i) := rfl

theorem boardNext_core_fetch (hrunning : cpuReset s.wrapper i = false) :
    (boardNext s i).wrapper.core.fetch =
      fetchNext (coreConfig w) s.wrapper.core (boardCoreIn s i) :=
  coreNext_fetch hrunning

theorem boardNext_core_pipe (hrunning : cpuReset s.wrapper i = false) :
    (boardNext s i).wrapper.core.pipe = pipeNext (coreConfig w) s.wrapper.core.pipe
      (pipeIn (coreConfig w) s.wrapper.core (boardCoreIn s i)) :=
  coreNext_pipe hrunning

/-- On the board MEM waits exactly in the first cycle of an access. -/
theorem memStall_board (hI : BramInv w imem₀ s g)
    (hsel : dmemAcc s.wrapper = true → dmemSelBram w s.wrapper = true) :
    memStall s.wrapper.core.pipe (boardCoreIn s i).dmemReady =
      (dmemAcc s.wrapper && !s.wrapper.dmemAccQ) := by
  have hready : (boardCoreIn s i).dmemReady = dmemReady w s.wrapper (boardIn s i) := rfl
  rw [memStall, ← dmemAcc_eq, hready]
  cases hacc : dmemAcc s.wrapper with
  | false => rfl
  | true =>
    rw [dmemReady_of_selBram (hsel hacc)]
    cases hI.port with
    | free hfree => exact absurd (hacc.symm.trans hfree) (by simp)
    | axi haxi => exact absurd (haxi.symm.trans (dmemSelAxi_of_selBram (hsel hacc))) (by simp)
    | first _ _ hq => rw [bramDmemReady, hq, Bool.false_and]
    | second _ _ hq haddr =>
      rw [bramDmemReady, hq, haddr, beq_self_eq_true]
      rfl

/-- On the board a response that is due is there. -/
theorem imemReady_board (hI : BramInv w imem₀ s g) (hf : s.wrapper.core.fetch.Waiting) :
    (boardCoreIn s i).imemReady = true := by
  have hready : (boardCoreIn s i).imemReady = imemReady s.wrapper := rfl
  have hfetch := hI.fetch
  generalize g.fetch = f at hfetch
  cases hfetch with
  | none _ hn =>
    obtain hn | hn := hn
    · exact absurd hf.pending (by simp [hn.pending])
    · exact absurd hf.pending (by simp [hn.pending])
  | some hq haddr => rw [hready, imemReady, hq, haddr, imemAddr, beq_self_eq_true, Bool.true_and]

/-- The register beside the data port. -/
theorem dmemAccQ_next (hrunning : cpuReset s.wrapper i = false)
    (hsel : dmemAcc s.wrapper = true → dmemSelBram w s.wrapper = true) :
    (boardNext s i).wrapper.dmemAccQ = dmemAcc s.wrapper := by
  have hrunning' : cpuReset s.wrapper (boardIn s i) = false := hrunning
  have hq : (boardNext s i).wrapper.dmemAccQ = dmemSelBram w s.wrapper := by
    simp [boardNext, wrapperNext, hrunning']
  rw [hq]
  cases hacc : dmemAcc s.wrapper with
  | false => rw [dmemSelBram, hacc, Bool.false_and]
  | true => exact hsel hacc

theorem dmemAcc_eq_isSome {s : Wrapper} : dmemAcc s = (portAccess s.core.pipe).isSome := by
  rw [dmemAcc, portAccess]
  split_ifs with hen
  · exact hen
  · exact Bool.eq_false_iff.mpr hen

/-- With MEM empty there is no access. -/
theorem dmemAcc_of_exMem_invalid {s : Wrapper} (h : s.core.pipe.exMem.valid = false) :
    dmemAcc s = false := by
  rw [dmemAcc_eq, h, Bool.false_and]

/-! ### A cycle with EX empty -/

section empty

variable (hI : BramInv w imem₀ s g)
  (hsel : dmemAcc s.wrapper = true → dmemSelBram w s.wrapper = true)
  (hrunning : cpuReset s.wrapper i = false) (hT : FrontTimed s.wrapper)
  (hEx : s.wrapper.core.pipe.idEx.valid = false)

include hI hsel hrunning hT hEx

/-- With EX empty every cycle is one less until EX is occupied. -/
theorem untilEx_next : FrontTimed (boardNext s i).wrapper ∧
    untilEx (boardNext s i).wrapper + 1 = untilEx s.wrapper := by
  have hst := hI.wrapper.port.staged
  have hstall := memStall_board (i := i) hI hsel
  have hr := exRedirect_of_idEx_invalid (c := coreConfig w)
    (r := (boardCoreIn s i).dmemReady) hEx
  have hmoves := frontMoves_of_idEx_invalid hst.pipe hEx (boardCoreIn s i).dmemReady
  have hfetch := boardNext_core_fetch hrunning
  have hpipe := boardNext_core_pipe hrunning
  obtain ⟨hwait, hmove⟩ := waiting_next (c := coreConfig w) (i := boardCoreIn s i) hst hrunning hEx
  rw [← boardNext_core] at hwait hmove
  cases hs : dmemAcc s.wrapper && !s.wrapper.dmemAccQ with
  | true =>
    -- the first cycle of an access: IF/ID is occupied, and MEM stays as it is
    rw [hs] at hstall
    obtain ⟨hId', hEx'⟩ := hwait hstall
    obtain ⟨hacc, -⟩ := Bool.and_eq_true_iff.mp hs
    have hId : s.wrapper.core.pipe.ifId.valid = true := by
      by_contra hId
      obtain ⟨hnone, -⟩ := hT.quiet ⟨Bool.eq_false_iff.mpr hId, hEx⟩
      rw [hacc] at hnone
      cases hnone
    have hq := dmemAccQ_next (i := i) hrunning hsel
    rw [hacc] at hq
    refine ⟨⟨fun hv => ?_, fun hempty => ?_⟩, ?_⟩
    · rw [hEx', hEx] at hv
      cases hv
    · have hId' := hempty.ifId.symm.trans (congrArg IfId.valid hId')
      rw [hId] at hId'
      cases hId'
    · simp [untilEx, hEx', hEx, hId', hId, hq, hs]
  | false =>
    rw [hs] at hstall
    rw [hstall, Bool.not_false] at hmoves
    obtain ⟨hEx', hId'⟩ := hmove hstall
    cases hId : s.wrapper.core.pipe.ifId.valid with
    | true =>
      -- the instruction enters EX, and the next one is requested
      have hidle := hst.front hId
      rw [fetchNext_idle hr hidle, imemReq_idle hr hidle, hmoves] at hfetch
      rw [hId] at hEx'
      have hrequest : (boardNext s i).wrapper.core.fetch.ifPendingValid = true := by
        rw [hfetch]
        have hreset : (boardCoreIn s i).reset = false := hrunning
        rw [hreset]
        rfl
      refine ⟨⟨fun _ hidle' => ?_, fun hempty => ?_⟩, ?_⟩
      · rw [hidle'.pending] at hrequest
        cases hrequest
      · rw [hempty.idEx] at hEx'
        cases hEx'
      · simp [untilEx, hEx', hEx, hId, hs]
    | false =>
      obtain ⟨-, hbuf⟩ := hT.quiet ⟨hId, hEx⟩
      rw [hId] at hEx'
      have hMem' : dmemAcc (boardNext s i).wrapper = false := by
        apply dmemAcc_of_exMem_invalid
        rw [hpipe, pipeNext_flow hst.pipe hEx hstall]
      have hdiscard := hI.fetch.discard
      cases hpending : s.wrapper.core.fetch.ifPendingValid with
      | true =>
        -- the response is there and goes to IF/ID
        have hf : s.wrapper.core.fetch.Waiting := ⟨hpending, hbuf, hdiscard⟩
        rw [ifAccept_waiting hr hf, hmoves, imemReady_board hI hf] at hId'
        refine ⟨⟨fun hv => ?_, fun hempty => ?_⟩, ?_⟩
        · rw [hEx'] at hv
          cases hv
        · rw [hempty.ifId] at hId'
          cases hId'
        · simp [untilEx, hEx', hEx, hId', hId, hpending, hMem']
      | false =>
        -- a request is made
        have hf : s.wrapper.core.fetch.Idle := ⟨hpending, hbuf, hdiscard⟩
        rw [ifAccept_idle hf] at hId'
        rw [fetchNext_idle hr hf, imemReq_idle hr hf, hmoves] at hfetch
        have hreset : (boardCoreIn s i).reset = false := hrunning
        refine ⟨⟨fun hv => ?_, fun _ => ⟨hMem', ?_⟩⟩, ?_⟩
        · rw [hEx'] at hv
          cases hv
        · rw [hfetch]
          exact hbuf
        · simp [untilEx, hEx', hEx, hId', hId, hpending, hfetch, hreset]

end empty

/-! ### A cycle with EX occupied -/

section occupied

variable (hI : BramInv w imem₀ s g) (hrunning : cpuReset s.wrapper i = false)
  (hT : FrontTimed s.wrapper) (hEx : s.wrapper.core.pipe.idEx.valid = true)

include hI hrunning hT hEx

/-- While a unit holds EX the response for the next instruction is kept in the buffer. -/
theorem frontTimed_held (hm : mStall s.wrapper.core.pipe = true) :
    FrontTimed (boardNext s i).wrapper := by
  have hst := hI.wrapper.port.staged
  have hf : exFires s.wrapper.core.pipe (boardCoreIn s i).dmemReady = false := by
    simp [exFires, hm]
  have hr := exRedirect_of_not_fires (c := coreConfig w) hf
  have hmoves : frontMoves s.wrapper.core.pipe (boardCoreIn s i).dmemReady = false := by
    rw [frontMoves, hst.pipe.stallIf_eq, hm, Bool.not_true, Bool.and_false]
  have hfetch := boardNext_core_fetch hrunning
  have hpipe := boardNext_core_pipe hrunning
  have hEx' : (boardNext s i).wrapper.core.pipe.idEx.valid = true := by
    rw [hpipe, pipeNext_busy hst.pipe hEx hm]
    exact hEx
  refine ⟨fun _ hidle => ?_, fun hempty => ?_⟩
  · cases hst.fetch with
    | idle hi => exact hT.ahead hEx hi
    | waiting hw =>
      rw [fetchNext_waiting hr hw, imemReady_board hI hw, hmoves] at hfetch
      exact absurd hidle.buf (by simp [hfetch])
    | buffered hb =>
      rw [fetchNext_buffered hr hb, hmoves, if_neg Bool.false_ne_true] at hfetch
      exact absurd hidle.buf (by simp [hfetch, hb.buf])
    | discarding hd => exact absurd hI.fetch.discard (by simp [hd.discard])
  · rw [hempty.idEx] at hEx'
    cases hEx'

/-- After an instruction has left EX: a redirect has to fetch anew, and otherwise the next
instruction is in IF/ID, behind the access if there is one. -/
theorem untilEx_left (hm : mStall s.wrapper.core.pipe = false) :
    FrontTimed (boardNext s i).wrapper ∧
      untilEx (boardNext s i).wrapper =
        if (exRedirect (coreConfig w) s.wrapper.core.pipe (boardCoreIn s i).dmemReady).isSome then 3
        else if (leavingAccess (coreConfig w) s.wrapper.core.pipe
          (boardCoreIn s i).dmemReady).isSome then 2
        else 1 := by
  have hst := hI.wrapper.port.staged
  have hs := hst.pipe.memStall_eq hEx (boardCoreIn s i).dmemReady
  have hfetch := boardNext_core_fetch hrunning
  have hpipe := boardNext_core_pipe hrunning
  have hleave := pipeNext_leave (c := coreConfig w)
    (i := pipeIn (coreConfig w) s.wrapper.core (boardCoreIn s i)) hst.pipe hEx hm
  have hEx' : (boardNext s i).wrapper.core.pipe.idEx.valid = false := by
    rw [hpipe, hleave]
    dsimp only
    split_ifs <;> rfl
  have hacc : dmemAcc s.wrapper = false :=
    dmemAcc_of_exMem_invalid (hst.pipe.idEx_exMem hEx)
  have hq : (boardNext s i).wrapper.dmemAccQ = false := by
    rw [dmemAccQ_next hrunning, hacc]
    intro h
    rw [hacc] at h
    cases h
  have hport : dmemAcc (boardNext s i).wrapper = (leavingAccess (coreConfig w)
      s.wrapper.core.pipe (boardCoreIn s i).dmemReady).isSome := by
    rw [dmemAcc_eq_isSome, portAccess_leave hs hm hEx (hst.pipe.coherent hEx)]
    rw [hpipe]
    rfl
  cases hr : exRedirect (coreConfig w) s.wrapper.core.pipe (boardCoreIn s i).dmemReady with
  | some target =>
    have hnone := leavingAccess_of_redirect (c := coreConfig w)
      (r := (boardCoreIn s i).dmemReady) (hst.pipe.coherent hEx) (by rw [hr]; rfl)
    obtain ⟨hId', -⟩ := hst.redirect_next (c := coreConfig w) (i := boardCoreIn s i) hrunning hr
    rw [← boardNext_core] at hId'
    rw [fetchNext_redirect hr] at hfetch
    refine ⟨⟨fun hv => ?_, fun _ => ⟨?_, ?_⟩⟩, ?_⟩
    · rw [hEx'] at hv
      cases hv
    · rw [hport, hnone]
      rfl
    · rw [hfetch]
    · simp [untilEx, hEx', hId', hfetch]
  | none =>
    have hmoves : frontMoves s.wrapper.core.pipe (boardCoreIn s i).dmemReady = true := by
      rw [frontMoves, hst.pipe.stallIf_eq, hm, hs]
      rfl
    -- the fetch unit has the next instruction at hand
    have ha : ifAccept (coreConfig w) s.wrapper.core (boardCoreIn s i) = true := by
      cases hst.fetch with
      | idle hi => exact absurd hi (hT.ahead hEx)
      | waiting hw => rw [ifAccept_waiting hr hw, hmoves, imemReady_board hI hw]; rfl
      | buffered hb => rw [ifAccept_buffered hr hb, hmoves]
      | discarding hd => exact absurd hI.fetch.discard (by simp [hd.discard])
    have hId' : (boardNext s i).wrapper.core.pipe.ifId.valid = true := by
      have ha' : (pipeIn (coreConfig w) s.wrapper.core (boardCoreIn s i)).ifAccept = true := ha
      have hr' : exRedirect (coreConfig w) s.wrapper.core.pipe
          (pipeIn (coreConfig w) s.wrapper.core (boardCoreIn s i)).dmemReady = none := hr
      rw [hpipe, hleave, hr', ha']
      rfl
    refine ⟨⟨fun hv => ?_, fun hempty => ?_⟩, ?_⟩
    · rw [hEx'] at hv
      cases hv
    · rw [hempty.ifId] at hId'
      cases hId'
    · simp [untilEx, hEx', hId', hport, hq]

end occupied

end board

/-! ## The instruction that leaves EX -/

/-- The wires of a departure are the redirect and the access of the instruction. -/
theorem departure_wires {imem : Word → Word} {s : Core} {g : RunLog} {a : Seq}
    (h : Agrees imem s g a) (hst : CoreStaged s) (ho : Operands s.pipe)
    (hEx : s.pipe.idEx.valid = true) (hm : mStall s.pipe = false) (r : Bool) :
    (exRedirect c s.pipe r).isSome = a.redirects c imem ∧
      leavingAccess c s.pipe r = (a.effect c imem).access := by
  obtain ⟨hissued, -⟩ := h.front.idEx hEx
  have hexec := executes_of_leave hst.pipe ho h.back hissued hEx hm r
  refine ⟨hexec.redirects_eq, ?_⟩
  rw [hexec.leavingAccess_eq g.mem, Seq.effect, h.back.csr,
    h.back.mem_eq (hst.pipe.idEx_exMem hEx)]

theorem untilEx_eq_zero {s : Wrapper} : untilEx s = 0 ↔ s.core.pipe.idEx.valid = true := by
  rw [untilEx]
  split_ifs with hEx <;> simp [hEx]

/-! ## Runs of the board

The cycles of a run against the instructions of the sequential machine: `departTime` adds up the
gaps, and a cycle is a departure exactly if it is one of these sums. -/

namespace BoardRun

variable {w : WrapperConfig} (R : BoardRun w)

/-- An instruction leaves EX in cycle `t`. -/
def departs (t : ℕ) : Prop := exFires (R.core t).pipe (R.coreInput t).dmemReady = true

instance : DecidablePred R.departs := fun _ => inferInstanceAs (Decidable (_ = true))

/-- The sequential machine after the instructions that have left EX before cycle `t`. -/
def machineAt (t : ℕ) : Seq := R.machine (Nat.count R.departs t)

/-- The number of cycles until the next departure. -/
def remaining (t : ℕ) : ℕ :=
  if (R.core t).pipe.idEx.valid then exRemaining (R.core t).pipe
  else untilEx (R.state t).sys.wrapper + (R.machineAt t).exLatency R.program

/-- The cycle in which instruction number `k` leaves EX: three cycles after the release of
the core for the first one, and a gap for each instruction. -/
def departTime (k : ℕ) : ℕ :=
  Schedule.time (3 + (R.machine 0).exLatency R.program)
    (fun j => (R.machine j).gap (coreConfig w) R.program) k

theorem machineAt_of_not_departs {t : ℕ} (hnot : ¬ R.departs t) :
    R.machineAt (t + 1) = R.machineAt t := by
  rw [machineAt, machineAt, Nat.count_succ, if_neg hnot, Nat.add_zero]

theorem machineAt_of_departs {t : ℕ} (hfires : R.departs t) :
    R.machineAt (t + 1) = seqStep (coreConfig w) R.program (R.machineAt t) := by
  rw [machineAt, machineAt, Nat.count_succ, if_pos hfires, machine, seqRun,
    Function.iterate_succ_apply']
  rfl

/-- A departure is a cycle with nothing remaining. -/
theorem departs_iff (t : ℕ) : R.departs t ↔ R.remaining t = 0 := by
  rw [departs, remaining, exFires_eq_true]
  split_ifs with hEx
  · rw [exRemaining_eq_zero hEx]
    exact ⟨fun hf => hf.2.1, fun hm => ⟨(R.stagedAt t).pipe.memStall_eq hEx _, hm, hEx⟩⟩
  · refine ⟨fun hf => absurd hf.2.2 hEx, fun hzero => ?_⟩
    exact absurd (untilEx_eq_zero.mp (Nat.eq_zero_of_add_eq_zero_right hzero)) hEx

/-- The first instruction needs three cycles to EX. -/
theorem remaining_zero : R.remaining 0 = 3 + (R.machine 0).exLatency R.program := by
  have hcore : R.core 0 = coreReset (coreConfig w) := R.fresh
  have hwrapper : (R.state 0).sys.wrapper.core = coreReset (coreConfig w) := R.fresh
  rw [remaining, untilEx, hcore, hwrapper]
  rfl

section inRam

variable (hquiet : R.Quiet) (hram : R.StaysInRam)

include hquiet hram

/-- What holds of the board and the sequential machine in cycle `t`. -/
theorem agreesAt (t : ℕ) : ∃ g : RunLog,
    Agrees R.program (R.core t) g (R.machineAt t) ∧ Operands (R.core t).pipe ∧
      (∀ addr, InRam w addr →
        g.mem (wordIndex addr) = (R.state t).log.mem (bramIndex w addr)) ∧
      (dmemAcc (R.state t).sys.wrapper = true → dmemSelBram w (R.state t).sys.wrapper = true) := by
  have hcore : ∀ t, coreAfter (coreConfig w) R.hostedStart.sys R.coreInput t = R.core t := by
    intro t
    obtain ⟨-, hh⟩ := R.hosts hquiet hram t
    rw [core, ← hh.core, coreAfter, ← Clocked.stateAt_sys]
    rfl
  have hdeparts : RiscvV2.departs (coreConfig w) R.hostedStart.sys R.coreInput = R.departs := by
    funext t
    rw [RiscvV2.departs, departs, hcore]
  obtain ⟨hreach, hh⟩ := R.hosts hquiet hram t
  have hinit : R.hostedSystem.init R.hostedStart := ⟨⟨rfl, rfl⟩, rfl⟩
  have hagrees := agrees_stateAt hinit (R.hosted_run hquiet hram) t
  simp only [hdeparts] at hagrees
  refine ⟨_, hcore t ▸ hagrees, ?_, hh.mem, fun hacc => ?_⟩
  · rw [core, ← hh.core]
    exact operands_of_reachable hreach.sys.sys
  · rw [hcore, core, ← hh.core] at hagrees
    exact (dmemSelBram_of_inRam hh hagrees (hram _) hacc).2

theorem frontTimedAt (t : ℕ) : FrontTimed (R.state t).sys.wrapper := by
  induction t with
  | zero =>
    have hcore : (R.state 0).sys.wrapper.core = coreReset (coreConfig w) := R.fresh
    refine ⟨fun hv => ?_, fun _ => ⟨?_, ?_⟩⟩
    · rw [hcore] at hv
      cases hv
    · rw [dmemAcc, hcore]
      rfl
    · rw [hcore]
      rfl
  | succ t ih =>
    obtain ⟨-, -, -, -, hsel⟩ := R.agreesAt hquiet hram t
    cases hEx : (R.core t).pipe.idEx.valid with
    | false => exact (untilEx_next (R.bramInvAt t) hsel (R.running t) ih hEx).1
    | true =>
      cases hm : mStall (R.core t).pipe with
      | true => exact frontTimed_held (R.bramInvAt t) (R.running t) ih hEx hm
      | false => exact (untilEx_left (R.bramInvAt t) (R.running t) ih hEx hm).1

/-- A cycle without a departure is one less that remains. -/
theorem remaining_next (t : ℕ) (hnot : ¬ R.departs t) :
    R.remaining (t + 1) + 1 = R.remaining t := by
  obtain ⟨-, -, -, -, hsel⟩ := R.agreesAt hquiet hram t
  have hst := (R.stagedAt t).pipe
  cases hEx : (R.core t).pipe.idEx.valid with
  | true =>
    have hm : mStall (R.core t).pipe = true := by
      by_contra hm
      exact hnot (exFires_eq_true.mpr ⟨hst.memStall_eq hEx _, Bool.eq_false_iff.mpr hm, hEx⟩)
    have hEx' : (R.core (t + 1)).pipe.idEx.valid = true := by
      rw [R.pipe_succ, pipeNext_busy hst hEx hm]
      exact hEx
    rw [remaining, remaining, if_pos hEx, if_pos hEx', R.pipe_succ]
    exact exRemaining_next hst hEx hm
  | false =>
    have huntil : untilEx (R.state (t + 1)).sys.wrapper + 1 = untilEx (R.state t).sys.wrapper :=
      (untilEx_next (R.bramInvAt t) hsel (R.running t) (R.frontTimedAt hquiet hram t) hEx).2
    rw [remaining, remaining, if_neg (Bool.eq_false_iff.mp hEx)]
    split_ifs with hEx'
    · -- the instruction has just entered EX
      obtain ⟨g, hagrees, ho, -, -⟩ := R.agreesAt hquiet hram (t + 1)
      have hentered := untilEx_eq_zero.mpr hEx'
      have hidle : UnitsIdle (R.core (t + 1)).pipe := by
        rw [R.pipe_succ]
        exact unitsIdle_next hst hEx
      have hlatency := exRemaining_eq_exLatency hagrees (R.stagedAt (t + 1)) ho hEx' hidle
      rw [hlatency, R.machineAt_of_not_departs hnot]
      omega
    · rw [R.machineAt_of_not_departs hnot]
      omega

/-- A departure sets the wait for the next one. -/
theorem remaining_set (t : ℕ) (hfires : R.departs t) :
    R.remaining (t + 1) + 1 = (R.machineAt t).gap (coreConfig w) R.program := by
  obtain ⟨g, hagrees, ho, -, -⟩ := R.agreesAt hquiet hram t
  obtain ⟨-, hm, hEx⟩ := exFires_eq_true.mp hfires
  obtain ⟨hredirect, haccess⟩ := departure_wires (c := coreConfig w) hagrees (R.stagedAt t) ho hEx
    hm (R.coreInput t).dmemReady
  have huntil : untilEx (R.state (t + 1)).sys.wrapper =
      if (R.machineAt t).redirects (coreConfig w) R.program then 3
      else if ((R.machineAt t).effect (coreConfig w) R.program).access.isSome then 2
      else 1 := by
    rw [← hredirect, ← haccess]
    exact (untilEx_left (R.bramInvAt t) (R.running t) (R.frontTimedAt hquiet hram t) hEx hm).2
  have hEx' : ¬ (R.core (t + 1)).pipe.idEx.valid = true := by
    rw [core, ← untilEx_eq_zero, huntil]
    split_ifs <;> simp
  rw [remaining, if_neg hEx', huntil, R.machineAt_of_departs hfires, Seq.gap]
  split_ifs <;> omega

end inRam

end BoardRun

/-- Without a control write the reset bit stays as it is. -/
theorem cpuResetExt_untouched {w : WrapperConfig} {s : Board w}
    {i : WrapperIn w.numExtInterrupts} (hresetn : i.aresetn = true)
    (hidle : i.sAxiCtrlAwvalid = false) :
    cpuResetExt (boardNext s i).wrapper.ctrl = cpuResetExt s.wrapper.ctrl := by
  simp [cpuResetExt, boardNext, boardIn, wrapperNext, ctrlIn, controlNext, writeAccept, hresetn,
    hidle]

/-- A run without writes on the control bus. -/
def BoardRun.untouched {w : WrapperConfig} (imem dmem : BitVec w.addrWidth → Word)
    (start : Clocked.Recorded (Board w) (BramLog w)) (input : ℕ → WrapperIn w.numExtInterrupts)
    (reachable : (bramSystem w imem dmem).Reachable start)
    (fresh : start.sys.wrapper.core = coreReset (coreConfig w))
    (released : cpuResetExt start.sys.wrapper.ctrl = false)
    (idle : ∀ t, (input t).aresetn = true ∧ (input t).sAxiCtrlAwvalid = false) : BoardRun w where
  imem := imem
  dmem := dmem
  start := start
  input := input
  reachable := reachable
  fresh := fresh
  running := by
    intro t
    have hreleased : cpuResetExt
        ((bramSystem w imem dmem).stateAt start input t).sys.wrapper.ctrl = false := by
      induction t with
      | zero => exact released
      | succ t ih => exact (cpuResetExt_untouched (idle t).1 (idle t).2).trans ih
    rw [cpuReset, (idle t).1, hreleased]
    rfl

/-- The board has the state of the sequential machine, with its next instruction in EX and up
to the register write that WB is making. -/
structure BoardShows {w : WrapperConfig} (s : Board w) (a : Seq) : Prop where
  pc : s.wrapper.core.pipe.idEx.pc = a.pc
  regs : settledRegs s.wrapper.core.pipe = a.regs
  csr : s.wrapper.core.pipe.csr = a.csr
  data : ∀ addr, InRam w addr → s.dmem.mem (bramIndex w addr) = a.mem (wordIndex addr)

/-- **The board is cycle exact.** For every program that stays in the data RAM, without
interrupts, and whatever happens on the control bus short of a reset: instruction number `k` of
the sequential execution leaves EX in cycle `departTime k`, nothing leaves EX in any other
cycle, and in that cycle the pc, the registers, the CSRs and the contents of the data RAM are
those of the sequential machine after `k` instructions. -/
theorem board_cycle_exact {w : WrapperConfig} (R : BoardRun w) (hquiet : R.Quiet)
    (hram : R.StaysInRam) :
    (∀ t, R.departs t ↔ ∃ k, t = R.departTime k) ∧
      ∀ k, BoardShows (R.state (R.departTime k)).sys (R.machine k) := by
  obtain ⟨hevents, honly⟩ := Schedule.scheduled
    (fun k => (R.machine k).gap (coreConfig w) R.program)
    R.departs_iff (R.remaining_next hquiet hram) (R.remaining_set hquiet hram)
  rw [R.remaining_zero] at hevents honly
  refine ⟨fun t => ⟨fun hf => ⟨_, honly t hf⟩, ?_⟩, fun k => ?_⟩
  · rintro ⟨k, rfl⟩
    exact (hevents k).1
  · obtain ⟨hfires, hcount⟩ := hevents k
    rw [BoardRun.departTime]
    generalize Schedule.time _ _ k = t at hfires hcount ⊢
    obtain ⟨-, -, hEx⟩ := exFires_eq_true.mp hfires
    obtain ⟨g, hagrees, ho, hmem, -⟩ := R.agreesAt hquiet hram t
    rw [BoardRun.machineAt, hcount] at hagrees
    have hcommits := hagrees.commits (R.stagedAt t) ho hEx
    refine ⟨hcommits.pc, hcommits.regs, hcommits.csr, fun addr haddr => ?_⟩
    -- with an instruction in EX no store is half done
    have hfree := (R.bramInvAt t).port.mem_eq
    have hacc : dmemAcc (R.state t).sys.wrapper = false :=
      dmemAcc_of_exMem_invalid ((R.stagedAt t).pipe.idEx_exMem hEx)
    rw [dmemSelBram, hacc, Bool.false_and, Bool.false_and, Bool.false_and,
      if_neg Bool.false_ne_true] at hfree
    rw [hfree, ← hmem addr haddr, hcommits.mem]

/-- `addi x1, x0, 7`, `sw x1, 8(x0)`, and a jump to itself. -/
def storeSeven (a : BitVec 10) : Word :=
  if a = 0#10 then 0x00700093#32 else if a = 1#10 then 0x00102423#32 else 0x0000006f#32

/-- The board with the default parameters of the wrapper. -/
abbrev plainBoard : WrapperConfig := {}

/-- A control write that releases the core. -/
def releaseWrite : WrapperIn 32 :=
  { sAxiCtrlAwvalid := true, sAxiCtrlWvalid := true, sAxiCtrlWstrb := 0xf#4 }

/-- The board at power-up, with a program and an empty data RAM. -/
def poweredUp (program : BitVec 10 → Word) :
    Clocked.Recorded (Board plainBoard) (BramLog plainBoard) :=
  ⟨⟨wrapperReset plainBoard, ⟨program, 0#32⟩, ⟨fun _ => 0#32, 0#32⟩⟩, { mem := fun _ => 0#32 }⟩

/-- The board after the two cycles of the write. -/
def released (program : BitVec 10 → Word) :
    Clocked.Recorded (Board plainBoard) (BramLog plainBoard) :=
  (bramSystem plainBoard program fun _ => 0#32).after (poweredUp program)
    [releaseWrite, releaseWrite]

theorem released_reachable (program : BitVec 10 → Word) :
    (bramSystem plainBoard program fun _ => 0#32).Reachable (released program) := by
  have hinit : (bramSystem plainBoard program fun _ => 0#32).init (poweredUp program) :=
    ⟨⟨rfl, rfl, rfl⟩, rfl⟩
  exact Clocked.Reachable.after (.init hinit) (fun _ _ => ⟨trivial, trivial⟩) _

/-- The control register does not depend on the program. -/
theorem released_running (program : BitVec 10 → Word) :
    cpuResetExt (released program).sys.wrapper.ctrl = false := by
  have hctrl : (released program).sys.wrapper.ctrl =
      (released fun _ => 0#32).sys.wrapper.ctrl := rfl
  rw [hctrl]
  decide

/-- The write releases the core at its end. -/
theorem released_fresh (program : BitVec 10 → Word) :
    (released program).sys.wrapper.core = coreReset (coreConfig plainBoard) := by
  refine core_of_cpuReset ?_
  have hfirst : ∀ program' : BitVec 10 → Word, cpuResetExt ((bramSystem plainBoard program'
      fun _ => 0#32).next (poweredUp program') releaseWrite).sys.wrapper.ctrl =
        cpuResetExt ((bramSystem plainBoard (fun _ => 0#32) fun _ => 0#32).next
          (poweredUp fun _ => 0#32) releaseWrite).sys.wrapper.ctrl := fun _ => rfl
  rw [cpuReset, Bool.or_eq_true]
  exact .inr ((hfirst program).trans (by decide))

/-- A program on this board, with the same input in every cycle after the release. -/
def programRun (program : BitVec 10 → Word) (i : WrapperIn 32)
    (hidle : i.aresetn = true ∧ i.sAxiCtrlAwvalid = false) : BoardRun plainBoard :=
  BoardRun.untouched program (fun _ => 0#32) (released program) (fun _ => i)
    (released_reachable program) (released_fresh program) (released_running program) fun _ => hidle

/-- The program on a board that is left alone after the release. -/
def sevenRun : BoardRun plainBoard := programRun storeSeven {} ⟨rfl, rfl⟩

theorem sevenRun_machine (k : ℕ) : sevenRun.machine (k + 2) = sevenRun.machine 2 := by
  have hloop : storeSeven (bramIndex plainBoard (sevenRun.machine 2).pc) = 0x0000006f#32 := by
    decide
  induction k with
  | zero => rfl
  | succ k ih =>
    have hstep : sevenRun.machine (k + 1 + 2) =
        seqStep (coreConfig plainBoard) sevenRun.program (sevenRun.machine (k + 2)) :=
      Function.iterate_succ_apply' _ _ _
    rw [hstep, ih]
    exact seqStep_selfLoop hloop

theorem sevenRun_staysInRam : sevenRun.StaysInRam := by
  intro k a ha
  have haccesses : a ∈ (sevenRun.machine 2).accesses := by
    match k with
    | 0 | 1 => cases ha
    | k + 2 => exact sevenRun_machine k ▸ ha
  have hone : (sevenRun.machine 2).accesses.map Access.addr = [8#32] := by decide
  have haddr := List.mem_map_of_mem (f := Access.addr) haccesses
  rw [hone, List.mem_singleton] at haddr
  rw [haddr]
  exact ⟨by decide, by decide⟩

theorem board_cycle_exact_store :
    sevenRun.departs 12 ∧ (sevenRun.state 12).sys.dmem.mem 2#10 = 7#32 := by
  have htime : sevenRun.departTime 3 = 12 := by decide
  obtain ⟨hdeparts, hshows⟩ := board_cycle_exact sevenRun (fun _ => rfl)
    sevenRun_staysInRam
  refine ⟨(hdeparts 12).mpr ⟨3, htime.symm⟩, ?_⟩
  have hdata := (hshows 3).data 8#32 ⟨by decide, by decide⟩
  rw [htime] at hdata
  exact hdata.trans (by decide)

end RiscvV2
