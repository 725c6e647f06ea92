import RiscvV2.Progress
import RiscvV2.Refinement
import Mathlib.Data.Nat.Nth

/-!
# Every instruction is executed

The refinement says that the pipeline does nothing but what the sequential machine does. Here
is the other half: with memories that answer in the end, it does all of it. The cycles in
which an instruction leaves EX are numbered, and in cycle number `k` the pipeline is where
the sequential machine is after `k` instructions, up to the register write that WB is making.

The difference to a refinement matters. A pipeline that stops for good refines everything, and
one that loses track of how far it is could still write the right values. Here the
correspondence is exact in both directions: there is one departure for each step and one step
for each departure, and the state is compared in the very cycle of the departure.
-/

namespace RiscvV2

variable {c : Config} {imem : Word → Word}

/-! ## One instruction for each departure

The refinement relates a reachable state to some number of steps. Here the number is counted
along the run. -/

/-- **Exact step lemma**: the sequential machine takes its step in the cycle in which the
instruction leaves EX, and only then. -/
theorem agrees_cycle {t : Clocked.Recorded Core FetchLog} {g : RunLog} {a : Seq}
    {i : CoreIn c.numExtInterrupts} (ht : (fetchSystem c).Reachable t)
    (hokF : fetchAllowed t.log t.sys i) (hok : runAllowed imem g t i)
    (h : Agrees imem t.sys g a) :
    Agrees imem (coreNext c t.sys i) (runRecord c g t i)
      (if exFires t.sys.pipe i.dmemReady = true then seqStep c imem a else a) := by
  have hst := coreStaged_of_reachable ht.sys
  have ho := operands_of_reachable ht.sys
  have hI := fetchInv_of_reachable ht
  obtain ⟨hreset, hirq, himem, hdata⟩ := id hok
  have hpipe := coreNext_pipe (c := c) (s := t.sys) hreset
  cases hf : exFires t.sys.pipe i.dmemReady with
  | false =>
    rw [if_neg Bool.false_ne_true]
    refine ⟨h.front.stay hst hI hokF hreset himem hf hirq h.back.quiet, ?_⟩
    rw [hpipe]
    exact h.back.stay hst.pipe ho hok hf
  | true =>
    obtain ⟨-, hm, hEx⟩ := exFires_eq_true.mp hf
    have hexec := executes_of_leave hst.pipe ho h.back (h.front.idEx hEx).1 hEx hm i.dmemReady
    have hfront := h.front.leave hst hI hokF hreset himem hEx hm
    rw [hexec.exRedirect_eq, h.back.csr] at hfront
    rw [if_pos rfl]
    refine ⟨hfront, ?_⟩
    rw [hpipe]
    exact h.back.leave hst.pipe ho hok hEx hm hexec

/-- Every reachable state agrees with the sequential machine after some number of steps. -/
theorem agrees_of_reachable {mem : DataMem}
    {r : Clocked.Recorded (Clocked.Recorded Core FetchLog) RunLog}
    (hr : (runSystem c imem mem).Reachable r) :
    ∃ k, Agrees imem r.sys.sys r.log (seqRun c imem mem k) := by
  refine Clocked.Reachable.simulates (R := fun r a => Agrees imem r.sys.sys r.log a) ?_ ?_ hr
  · rintro r ⟨⟨hs, -⟩, hg⟩
    rw [hs, hg]
    exact agrees_reset c imem mem
  · rintro r i a hreach ⟨⟨-, hokF⟩, hok⟩ h
    exact agrees_step hreach.sys hokF hok h

/-- The instruction in EX is the next one of the sequential machine, whose state the pipeline
has, once the write in WB is made. -/
structure Commits (p : Pipe) (g : RunLog) (a : Seq) : Prop where
  pc : p.idEx.pc = a.pc
  regs : settledRegs p = a.regs
  csr : p.csr = a.csr
  mem : g.mem = a.mem
  regWrites : g.regWrites ++ (wbWrite p).toList = a.regWrites
  accesses : g.accesses = a.accesses
  csrUpdates : g.csrUpdates = a.csrUpdates

/-- With an instruction in EX nothing is under way but the write in WB. -/
theorem Agrees.commits {s : Core} {g : RunLog} {a : Seq} (h : Agrees imem s g a)
    (hst : CoreStaged s) (ho : Operands s.pipe) (hEx : s.pipe.idEx.valid = true) :
    Commits s.pipe g a := by
  have hMem := hst.pipe.idEx_exMem hEx
  obtain ⟨hissued, -⟩ := h.front.idEx hEx
  refine ⟨hissued.pcEq, (h.back.settled ho.zero hMem).symm, h.back.csr,
    (h.back.mem_eq hMem).symm, ?_, ?_, h.back.csrUpdates.symm⟩
  · rw [h.back.regWrites, inFlight, memWrite_of_invalid hMem, Option.toList_none, List.append_nil]
  · rw [h.back.accesses, portAccess_of_exMem_invalid hMem, Option.toList_none, List.append_nil]

/-! ## Runs -/

section run

variable {mem : DataMem} {r₀ : Clocked.Recorded (Clocked.Recorded Core FetchLog) RunLog}
  {x : ℕ → CoreIn c.numExtInterrupts}

/-- After `t` cycles the pipeline agrees with the sequential machine after as many steps as
instructions have left EX. -/
theorem agrees_stateAt (hr : (runSystem c imem mem).init r₀)
    (hx : (runSystem c imem mem).Run r₀ x) (t : ℕ) :
    Agrees imem (coreAfter c r₀.sys x t) ((runSystem c imem mem).stateAt r₀ x t).log
      (seqRun c imem mem (Nat.count (departs c r₀.sys x) t)) := by
  have hcore : ∀ t, ((runSystem c imem mem).stateAt r₀ x t).sys =
      (fetchSystem c).stateAt r₀.sys x t := Clocked.stateAt_sys r₀ x
  rw [coreAfter, ← hcore]
  refine Clocked.stateAt_simulates (M := runSystem c imem mem)
    (fun r a => Agrees imem r.sys.sys r.log a) (seqStep c imem) (departs c r₀.sys x) ?_ ?_ t
  · obtain ⟨⟨hs, -⟩, hg⟩ := hr
    rw [hs, hg]
    exact agrees_reset c imem mem
  · intro t a h
    have hreach := (hx.reachable (.init hr) t).sys
    have hfire : departs c r₀.sys x t ↔
        exFires ((runSystem c imem mem).stateAt r₀ x t).sys.sys.pipe (x t).dmemReady = true := by
      rw [departs, coreAfter, ← hcore]
    rw [if_congr hfire rfl rfl]
    exact agrees_cycle hreach (hx t).1.2 (hx t).2 h

end run

/-! ## Prompt memories

Memories without wait states, as a feedback loop. They show that the hypotheses on the
surroundings can be met for every program. -/

/-- Memories that answer in the next cycle, and at once on the data port. -/
def promptIn (c : Config) (imem : Word → Word)
    (r : Clocked.Recorded (Clocked.Recorded Core FetchLog) RunLog) :
    CoreIn c.numExtInterrupts :=
  let answer := r.sys.log.unanswered.head?
  { imemReady := answer.isSome
    imemInstr := imem (answer.getD (0, 0#32)).2
    imemRespPc := (answer.getD (0, 0#32)).2
    dmemReady := true
    dmemReadData := r.log.mem (wordIndex (dmemAddr r.sys.sys.pipe)) }

/-- A prompt answer keeps the rules, whatever the program. -/
theorem promptIn_allowed (r : Clocked.Recorded (Clocked.Recorded Core FetchLog) RunLog) :
    fetchAllowed r.sys.log r.sys.sys (promptIn c imem r) ∧
      runAllowed imem r.log r.sys (promptIn c imem r) := by
  refine ⟨⟨fun hi => ?_, fun hr => ?_⟩, rfl, rfl, fun _ => rfl, fun _ _ => rfl⟩
  · obtain ⟨q, hq⟩ := Option.isSome_iff_exists.mp hi
    exact ⟨q, List.mem_of_mem_head? hq, by simp [promptIn, hq]⟩
  · cases hr

theorem promptIn_imemReady (r : Clocked.Recorded (Clocked.Recorded Core FetchLog) RunLog)
    (hu : r.sys.log.unanswered ≠ []) : (promptIn c imem r).imemReady = true := by
  simp only [promptIn]
  cases hh : r.sys.log.unanswered with
  | nil => exact absurd hh hu
  | cons q qs => rfl

section prompt

variable {mem : DataMem} (r₀ : Clocked.Recorded (Clocked.Recorded Core FetchLog) RunLog)

/-- The inputs of the core with prompt memories. -/
def promptStream (c : Config) (imem : Word → Word) (mem : DataMem)
    (r₀ : Clocked.Recorded (Clocked.Recorded Core FetchLog) RunLog) (t : ℕ) :
    CoreIn c.numExtInterrupts :=
  promptIn c imem ((runSystem c imem mem).loop (promptIn c imem) r₀ t)

theorem stateAt_prompt (t : ℕ) :
    (runSystem c imem mem).stateAt r₀ (promptStream c imem mem r₀) t =
      (runSystem c imem mem).loop (promptIn c imem) r₀ t :=
  Clocked.stateAt_loop _ _ _ _

theorem prompt_run : (runSystem c imem mem).Run r₀ (promptStream c imem mem r₀) := by
  intro t
  rw [stateAt_prompt, promptStream]
  obtain ⟨hfetch, hrun⟩ := promptIn_allowed
    ((runSystem c imem mem).loop (promptIn c imem) r₀ t)
  exact ⟨⟨trivial, hfetch⟩, hrun⟩

theorem prompt_fair : FairMemories c r₀.sys (promptStream c imem mem r₀) where
  imem := by
    refine LeadsTo.of_imp fun t hu => ?_
    have hstate : ((runSystem c imem mem).loop (promptIn c imem) r₀ t).sys =
        (fetchSystem c).stateAt r₀.sys (promptStream c imem mem r₀) t := by
      rw [← stateAt_prompt]
      exact Clocked.stateAt_sys r₀ _ t
    rw [← hstate] at hu
    exact promptIn_imemReady _ hu
  dmem := LeadsTo.of_imp fun _ _ => rfl

end prompt

/-! ## Liveness and completeness -/

/-- **The core is live.** In every run without reset, whatever the program, the interrupts
and the latencies of the memories, instructions keep leaving EX for as long as the memories
answer. -/
theorem core_live (c : Config) {s₀ : Clocked.Recorded Core FetchLog}
    {x : ℕ → CoreIn c.numExtInterrupts} (h : Answering c s₀ x) :
    {t | departs c s₀ x t}.Infinite :=
  h.departs_again.infinite

/-- The core with an empty data memory, out of reset. -/
def emptyStart : Clocked.Recorded (Clocked.Recorded Core FetchLog) RunLog :=
  ⟨⟨coreReset {}, {}⟩, { mem := fun _ => 0#32 }⟩

theorem core_live_addi :
    {t | departs {} emptyStart.sys
      (promptStream {} addiProgram (fun _ => 0#32) emptyStart) t}.Infinite :=
  core_live {} ⟨prompt_fair emptyStart, .init ⟨rfl, rfl⟩, (prompt_run emptyStart).sys,
    fun _ => rfl⟩

section departures

variable {mem : DataMem} {r₀ : Clocked.Recorded (Clocked.Recorded Core FetchLog) RunLog}
  {x : ℕ → CoreIn c.numExtInterrupts}

theorem answering_of_run (hr : (runSystem c imem mem).init r₀)
    (hx : (runSystem c imem mem).Run r₀ x) (hfair : FairMemories c r₀.sys x) :
    Answering c r₀.sys x :=
  ⟨hfair, .init hr.1, hx.sys, fun t => (hx t).2.1⟩

/-- The departures are numbered without gaps. -/
theorem Answering.departs_iff {s₀ : Clocked.Recorded Core FetchLog} (h : Answering c s₀ x) (t : ℕ) :
    departs c s₀ x t ↔ ∃ k, Nat.nth (departs c s₀ x) k = t := by
  rw [← Set.mem_range, Nat.range_nth_of_infinite h.departs_again.infinite]
  rfl

/-- The state in departure number `k`. -/
theorem commits_nth (hr : (runSystem c imem mem).init r₀) (hx : (runSystem c imem mem).Run r₀ x)
    (hfair : FairMemories c r₀.sys x) (k : ℕ) :
    Commits (coreAfter c r₀.sys x (Nat.nth (departs c r₀.sys x) k)).pipe
      ((runSystem c imem mem).stateAt r₀ x (Nat.nth (departs c r₀.sys x) k)).log
      (seqRun c imem mem k) := by
  have hrun := answering_of_run hr hx hfair
  have hinf := hrun.departs_again.infinite
  have hfire := Nat.nth_mem_of_infinite hinf k
  have hagrees := agrees_stateAt hr hx (Nat.nth (departs c r₀.sys x) k)
  rw [Nat.count_nth_of_infinite hinf] at hagrees
  have hreach := (hrun.reachableAt (Nat.nth (departs c r₀.sys x) k)).sys
  exact hagrees.commits (hrun.stagedAt _) (operands_of_reachable hreach)
    (exFires_eq_true.mp hfire).2.2

end departures

/-- **The pipeline executes every instruction, in order and once.** For every program, data
memory and configuration, all latencies of memories that answer in the end, and no interrupt
(`runSystem` keeps the lines low): the cycles in which an instruction leaves EX are a sequence
without end, and in the `k`-th of them the pipeline has the pc, registers, CSRs, data memory and
logs of the sequential machine after `k` instructions. -/
theorem sequential_completed (c : Config) (imem : Word → Word) (mem : DataMem)
    {r₀ : Clocked.Recorded (Clocked.Recorded Core FetchLog) RunLog}
    {x : ℕ → CoreIn c.numExtInterrupts} (hr : (runSystem c imem mem).init r₀)
    (hx : (runSystem c imem mem).Run r₀ x) (hfair : FairMemories c r₀.sys x) :
    ∃ f : ℕ → ℕ, StrictMono f ∧ (∀ t, departs c r₀.sys x t ↔ ∃ k, f k = t) ∧
      ∀ k, Commits (coreAfter c r₀.sys x (f k)).pipe
        ((runSystem c imem mem).stateAt r₀ x (f k)).log (seqRun c imem mem k) := by
  have hrun := answering_of_run hr hx hfair
  exact ⟨Nat.nth (departs c r₀.sys x), Nat.nth_strictMono hrun.departs_again.infinite,
    hrun.departs_iff, commits_nth hr hx hfair⟩

theorem sequential_completed_addi :
    ∃ t, departs {} emptyStart.sys
        (promptStream {} addiProgram (fun _ => 0#32) emptyStart) t ∧
      settledRegs (coreAfter {} emptyStart.sys
        (promptStream {} addiProgram (fun _ => 0#32) emptyStart) t).pipe 1#5 = 7#32 := by
  have hinit : (runSystem {} addiProgram (fun _ => 0#32)).init emptyStart := ⟨⟨rfl, rfl⟩, rfl⟩
  obtain ⟨f, -, hdeparts, hcommits⟩ := sequential_completed {} addiProgram (fun _ => 0#32)
    hinit (prompt_run emptyStart) (prompt_fair emptyStart)
  refine ⟨f 1, (hdeparts _).mpr ⟨1, rfl⟩, ?_⟩
  rw [(hcommits 1).regs]
  decide

end RiscvV2
