import RiscvV2.InterruptRefinement

/-!
# Interrupts come between instructions

The refinement over whole runs: the cycles in which an instruction leaves EX, or an interrupt
takes its place, are numbered, and in cycle number `k` the pipeline is where the machine with
interrupts is after `k` steps. The pending bits of each step are those of the interrupt lines,
in the cycle before for the interrupt itself, and some cycle earlier, but after the step
before, for what a CSR instruction reads.

The pending bits of the steps are not chosen, they are defined from the run: the step of a cycle
gets what its instruction saw. The theorem then ties them to the interrupt lines, so that it
cannot be satisfied by bits that were never on a line.
-/

namespace RiscvV2

variable {c : Config} {imem : Word → Word} {mem : DataMem}
  {r₀ : Clocked.Recorded (Clocked.Recorded Core FetchLog) IrqLog}
  {x : ℕ → CoreIn c.numExtInterrupts}

/-- The pending bits that the instruction in EX in cycle `t` sees. -/
def pendingAt (c : Config) (imem : Word → Word) (mem : DataMem)
    (r₀ : Clocked.Recorded (Clocked.Recorded Core FetchLog) IrqLog)
    (x : ℕ → CoreIn c.numExtInterrupts) (t : ℕ) : Pending where
  inId := ((irqSystem c imem mem).stateAt r₀ x t).log.seen
  inEx := (coreAfter c r₀.sys x t).pipe.csr.meipend

/-- The bits that the interrupt lines of cycle `t` make pending. -/
def linesAt (x : ℕ → CoreIn c.numExtInterrupts) (t : ℕ) : Word :=
  (x t).globalInterrupts.setWidth 32

theorem irqSystem_sys (t : ℕ) : ((irqSystem c imem mem).stateAt r₀ x t).sys =
    (fetchSystem c).stateAt r₀.sys x t :=
  Clocked.stateAt_sys r₀ x t

section run

variable (hr : (irqSystem c imem mem).init r₀) (hx : (irqSystem c imem mem).Run r₀ x)

include hx

/-- The pending bits follow the interrupt lines. -/
theorem meipend_succ (t : ℕ) :
    (coreAfter c r₀.sys x (t + 1)).pipe.csr.meipend = linesAt x t := by
  have hnext : coreAfter c r₀.sys x (t + 1) = coreNext c (coreAfter c r₀.sys x t) (x t) := rfl
  rw [hnext, coreNext_pipe (hx t).2.1]
  exact csrNext_meipend _ _

include hr

theorem irqReachableAt (t : ℕ) :
    (fetchSystem c).Reachable ((irqSystem c imem mem).stateAt r₀ x t).sys :=
  (hx.reachable (.init hr) t).sys

theorem irqCoreReachableAt (t : ℕ) : (coreSystem c).Reachable (coreAfter c r₀.sys x t) := by
  have hreach := (irqReachableAt hr hx t).sys
  rw [irqSystem_sys] at hreach
  exact hreach

/-- After `t` cycles the pipeline agrees with the machine after as many steps as there were
departures, if each step is given the bits that its instruction sees. -/
theorem irqAgrees_stateAt {v : ℕ → Pending}
    (hv : ∀ t, departs c r₀.sys x t →
      v (Nat.count (departs c r₀.sys x) t) = pendingAt c imem mem r₀ x t) (t : ℕ) :
    IrqAgrees imem (coreAfter c r₀.sys x t) ((irqSystem c imem mem).stateAt r₀ x t).log
      (irqRun c imem mem v (Nat.count (departs c r₀.sys x) t)) := by
  induction t with
  | zero =>
    obtain ⟨⟨hs, -⟩, hg⟩ := hr
    have hzero : IrqAgrees imem r₀.sys.sys r₀.log (seqReset c mem) := by
      rw [hs, hg]
      exact irqAgrees_reset c imem mem
    exact hzero
  | succ t ih =>
    have hstep := irqAgrees_cycle (i := x t) (irqReachableAt hr hx t) (hx t).1.2 (hx t).2
      (by rw [irqSystem_sys]; exact ih)
    have hnext : coreNext c ((irqSystem c imem mem).stateAt r₀ x t).sys.sys (x t) =
        coreAfter c r₀.sys x (t + 1) := by
      rw [irqSystem_sys]
      rfl
    have hpending : (⟨((irqSystem c imem mem).stateAt r₀ x t).log.seen,
        ((irqSystem c imem mem).stateAt r₀ x t).sys.sys.pipe.csr.meipend⟩ : Pending) =
        pendingAt c imem mem r₀ x t := by
      rw [irqSystem_sys]
      rfl
    have hfire : exFires ((irqSystem c imem mem).stateAt r₀ x t).sys.sys.pipe (x t).dmemReady =
        true ↔ departs c r₀.sys x t := by
      rw [irqSystem_sys]
      rfl
    rw [hnext, hpending, if_congr hfire rfl rfl] at hstep
    rw [Nat.count_succ]
    split_ifs at hstep ⊢ with hd
    · rw [irqRun, hv t hd]
      exact hstep
    · exact hstep

/-- What the instruction in EX saw in ID were the lines of a cycle after the last
departure. -/
theorem seen_eq (t : ℕ) (hEx : (coreAfter c r₀.sys x t).pipe.idEx.valid = true) :
    ∃ u < t, (∀ d, departs c r₀.sys x d → d < t → d ≤ u) ∧
      ((irqSystem c imem mem).stateAt r₀ x t).log.seen = linesAt x u := by
  have hstart : coreAfter c r₀.sys x 0 = coreReset c := hr.1.1
  induction t with
  | zero =>
    rw [hstart] at hEx
    cases hEx
  | succ t ih =>
    have hst := coreStaged_of_reachable (irqCoreReachableAt hr hx t)
    have hseen : ((irqSystem c imem mem).stateAt r₀ x (t + 1)).log.seen =
        if (coreAfter c r₀.sys x t).pipe.idEx.valid = true then
          ((irqSystem c imem mem).stateAt r₀ x t).log.seen
        else (coreAfter c r₀.sys x t).pipe.csr.meipend := by
      rw [coreAfter, ← irqSystem_sys]
      rfl
    have hnext : (coreAfter c r₀.sys x (t + 1)).pipe =
        pipeNext c (coreAfter c r₀.sys x t).pipe (pipeIn c (coreAfter c r₀.sys x t) (x t)) :=
      coreNext_pipe (hx t).2.1
    rw [hnext] at hEx
    rcases idEx_of_next hst.pipe hEx with ⟨hvalid, hm⟩ | ⟨hvalid, -, hId⟩
    · -- a multicycle unit holds the instruction, and nothing departs
      obtain ⟨u, hu, hlast, hlines⟩ := ih hvalid
      refine ⟨u, hu.trans (Nat.lt_succ_self t), fun d hd hdt => ?_, ?_⟩
      · obtain hlt | rfl := Nat.lt_succ_iff_lt_or_eq.mp hdt
        · exact hlast d hd hlt
        · have hidle := (exFires_eq_true.mp hd).2.1
          exact absurd (hidle.symm.trans hm) (by simp)
      · rw [hseen, if_pos hvalid, hlines]
    · -- the instruction enters EX at this edge
      cases t with
      | zero =>
        rw [hstart] at hId
        cases hId
      | succ t =>
        refine ⟨t, by omega, fun d hd hdt => ?_, ?_⟩
        · obtain hlt | rfl := Nat.lt_succ_iff_lt_or_eq.mp hdt
          · exact Nat.lt_succ_iff.mp hlt
          · have hoccupied := (exFires_eq_true.mp hd).2.2
            exact absurd (hvalid.symm.trans hoccupied) (by simp)
        · rw [hseen, if_neg (by simp [hvalid]), meipend_succ hx]

/-- The state in a departure: what is settled there, the pending bits aside, is the state of
the machine after the steps before. -/
theorem irqCommits {v : ℕ → Pending} (hv : ∀ t, departs c r₀.sys x t →
      v (Nat.count (departs c r₀.sys x) t) = pendingAt c imem mem r₀ x t) (t : ℕ)
    (hd : departs c r₀.sys x t) :
    Commits (coreAfter c r₀.sys x t).pipe.quiet
      ((irqSystem c imem mem).stateAt r₀ x t).log.toRunLog
      (irqRun c imem mem v (Nat.count (departs c r₀.sys x) t)) := by
  have hreach := irqCoreReachableAt hr hx t
  exact (irqAgrees_stateAt hr hx hv t).quiet.commits (coreStaged_of_reachable hreach).quieted
    (operands_of_reachable hreach).quiet (exFires_eq_true.mp hd).2.2

end run

/-- **Interrupts come between instructions.** For every program, data memory and configuration,
all latencies of memories that answer in the end, and any interrupt inputs: the cycles in which
an instruction leaves EX, or an interrupt takes its place, are a sequence `f` without end, and in
cycle `f k` the pipeline has the pc, registers, CSRs, data memory and logs of the machine with
interrupts after `k` steps. A step is interrupted by the lines of the cycle before it. What its
CSR instruction reads as pending are the lines of some cycle since the step before. -/
theorem interrupts_between_instructions (c : Config) (imem : Word → Word) (mem : DataMem)
    {r₀ : Clocked.Recorded (Clocked.Recorded Core FetchLog) IrqLog}
    {x : ℕ → CoreIn c.numExtInterrupts} (hr : (irqSystem c imem mem).init r₀)
    (hx : (irqSystem c imem mem).Run r₀ x) (hfair : FairMemories c r₀.sys x) :
    ∃ (f : ℕ → ℕ) (v : ℕ → Pending), StrictMono f ∧
      (∀ t, departs c r₀.sys x t ↔ ∃ k, f k = t) ∧
      (∀ k, (∃ t, t + 1 = f k ∧ (v k).inEx = linesAt x t) ∧
        ∃ u < f k, (∀ j < k, f j ≤ u) ∧ (v k).inId = linesAt x u) ∧
      ∀ k, Commits (coreAfter c r₀.sys x (f k)).pipe.quiet
        ((irqSystem c imem mem).stateAt r₀ x (f k)).log.toRunLog (irqRun c imem mem v k) := by
  have hrun : Answering c r₀.sys x := ⟨hfair, .init hr.1, hx.sys, fun t => (hx t).2.1⟩
  have hinf := hrun.departs_again.infinite
  have hmono := Nat.nth_strictMono hinf
  have hdeparts : ∀ k, departs c r₀.sys x (Nat.nth (departs c r₀.sys x) k) :=
    Nat.nth_mem_of_infinite hinf
  refine ⟨Nat.nth (departs c r₀.sys x),
    fun k => pendingAt c imem mem r₀ x (Nat.nth (departs c r₀.sys x) k), hmono, hrun.departs_iff,
    fun k => ?_, fun k => ?_⟩
  · have hEx := (exFires_eq_true.mp (hdeparts k)).2.2
    obtain ⟨u, hu, hlast, hseen⟩ := seen_eq hr hx _ hEx
    refine ⟨?_, u, hu, fun j hj => hlast _ (hdeparts j) (hmono hj), hseen⟩
    obtain ⟨t, ht⟩ := Nat.exists_eq_succ_of_ne_zero (Nat.ne_zero_of_lt hu)
    refine ⟨t, ht.symm, ?_⟩
    dsimp only [pendingAt]
    rw [ht]
    exact meipend_succ hx t
  · have hcommits := irqCommits (v := fun k =>
      pendingAt c imem mem r₀ x (Nat.nth (departs c r₀.sys x) k)) hr hx
      (fun t ht => congrArg _ (Nat.nth_count ht)) _ (hdeparts k)
    rw [Nat.count_nth_of_infinite hinf] at hcommits
    exact hcommits

/-- `csrrwi x0, meimask, 1; csrrwi x0, mstatus, 8; addi x1, x0, 7`, no-ops elsewhere. -/
def enablingProgram (pc : Word) : Word :=
  if pc = 0#32 then 0x7c00d073#32
  else if pc = 4#32 then 0x30045073#32
  else if pc = 8#32 then 0x00700093#32
  else 0x00000013#32

/-- Prompt memories, with one interrupt line high all the time. -/
def requestingIn (r : Clocked.Recorded (Clocked.Recorded Core FetchLog) IrqLog) : CoreIn 32 :=
  { promptIn {} enablingProgram ⟨r.sys, r.log.toRunLog⟩ with globalInterrupts := 1#32 }

/-- The core out of reset, with an empty data memory. -/
def requestingStart : Clocked.Recorded (Clocked.Recorded Core FetchLog) IrqLog :=
  ⟨⟨coreReset {}, {}⟩, { mem := fun _ => 0#32 }⟩

/-- The inputs of this run. -/
def requestingStream (t : ℕ) : CoreIn 32 :=
  requestingIn ((irqSystem {} enablingProgram fun _ => 0#32).loop requestingIn requestingStart t)

/-- The instruction after the one that enables interrupts is replaced by the handler. -/
theorem interrupts_between_instructions_enabled :
    ∃ t, departs {} requestingStart.sys requestingStream t ∧
      (coreAfter {} requestingStart.sys requestingStream t).pipe.idEx.pc = 0#32 ∧
      (coreAfter {} requestingStart.sys requestingStream t).pipe.csr.mepc = 8#32 := by
  have hinit : (irqSystem {} enablingProgram fun _ => 0#32).init requestingStart :=
    ⟨⟨rfl, rfl⟩, rfl⟩
  have hstate : ∀ t, (irqSystem {} enablingProgram fun _ => 0#32).stateAt requestingStart
      requestingStream t = _ :=
    fun t => Clocked.stateAt_loop (irqSystem {} enablingProgram fun _ => 0#32) requestingIn
      requestingStart t
  have hrun : (irqSystem {} enablingProgram fun _ => 0#32).Run requestingStart
      requestingStream := by
    intro t
    rw [hstate, requestingStream]
    generalize (irqSystem {} enablingProgram fun _ => 0#32).loop requestingIn requestingStart t = r
    have hallowed : fetchAllowed r.sys.log r.sys.sys (promptIn {} enablingProgram _) ∧ _ :=
      promptIn_allowed ⟨r.sys, r.log.toRunLog⟩
    obtain ⟨hfetch, hreset, -, himem, hdata⟩ := hallowed
    exact ⟨⟨trivial, hfetch⟩, hreset, himem, hdata⟩
  have hfair : FairMemories {} requestingStart.sys requestingStream := by
    refine ⟨LeadsTo.of_imp fun t hu => ?_, LeadsTo.of_imp fun _ _ => rfl⟩
    have hsys : ((irqSystem {} enablingProgram fun _ => 0#32).stateAt requestingStart
        requestingStream t).sys = _ := irqSystem_sys t
    rw [← hsys, hstate] at hu
    rw [requestingStream]
    generalize (irqSystem {} enablingProgram fun _ => 0#32).loop requestingIn requestingStart t =
      r at hu ⊢
    have hready : (promptIn {} enablingProgram _).imemReady = true :=
      promptIn_imemReady ⟨r.sys, r.log.toRunLog⟩ hu
    exact hready
  obtain ⟨f, v, -, hdeparts, hlines, hcommits⟩ :=
    interrupts_between_instructions {} enablingProgram (fun _ => 0#32) hinit hrun hfair
  -- the line is high in every cycle, so every step sees it
  have hv : v = fun _ => ⟨1#32, 1#32⟩ := by
    funext k
    obtain ⟨⟨t, -, hEx⟩, u, -, -, hId⟩ := hlines k
    have hfields : v k = ⟨(v k).inId, (v k).inEx⟩ := rfl
    rw [hfields, hEx, hId]
    rfl
  have hlast := hcommits 3
  rw [hv] at hlast
  refine ⟨f 3, (hdeparts _).mpr ⟨3, rfl⟩, ?_, ?_⟩
  · refine hlast.pc.trans ?_
    decide
  · have hepc := congrArg Csr.mepc hlast.csr
    refine hepc.trans ?_
    decide

end RiscvV2
