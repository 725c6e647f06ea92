import RiscvV2.BoardTiming

/-!
# What the second port of the data RAM sees

The processing system reads the data RAM while the core runs, through a port of its own and in
any cycle. What it finds is the data memory of the sequential machine after a whole number of
instructions. That number never goes back, and it is behind the instructions that have left
EX by the store in its first cycle on the core's port only.

The second port needs no synchronisation with the core: a store is one strobed write of one
word, so there is no cycle in which it is half done. The count of a cycle is that of the
departures, less one while an access is in its first cycle on the port. A reader who polls a
word and then reads others sees the stores in program order.
-/

namespace RiscvV2

namespace BoardRun

variable {w : WrapperConfig} (R : BoardRun w)

/-- An access on the core's port in its first cycle, which has not got to the RAM. -/
def pending (t : ℕ) : Bool :=
  dmemAcc (R.state t).sys.wrapper && !(R.state t).sys.wrapper.dmemAccQ

/-- The number of instructions whose stores are in the data RAM. -/
def stored (t : ℕ) : ℕ :=
  if R.pending t then Nat.count R.departs t - 1 else Nat.count R.departs t

section inRam

variable (hquiet : R.Quiet) (hram : R.StaysInRam)

include hquiet hram

/-- With nothing pending the RAM is up to date. -/
theorem dataRam_of_not_pending {t : ℕ} (hp : R.pending t = false) {addr : Word}
    (haddr : InRam w addr) :
    (R.state t).sys.dmem.mem (bramIndex w addr) = (R.machineAt t).mem (wordIndex addr) := by
  obtain ⟨g, hagrees, -, hmem, hsel⟩ := R.agreesAt hquiet hram t
  have hI := R.bramInvAt t
  rw [hagrees.back.mem]
  cases hI.port with
  | free hacc hm =>
    have hport : portAccess (R.core t).pipe = none := by
      rw [← Option.isNone_iff_eq_none, ← Option.not_isSome, core, ← dmemAcc_eq_isSome, hacc]
      rfl
    rw [hport, hm]
    exact (hmem addr haddr).symm
  | axi haxi =>
    have hbram := dmemSelAxi_of_selBram (hsel (dmemAcc_of_selAxi haxi))
    exact absurd (haxi.symm.trans hbram) (by simp)
  | first hbram _ hq =>
    have hacc := (Bool.and_eq_true_iff.mp hbram).1
    rw [pending, hacc, hq] at hp
    cases hp
  | second hbram _ _ _ _ hm =>
    have hacc := (Bool.and_eq_true_iff.mp hbram).1
    have hport : portAccess (R.core t).pipe = some _ := portAccess_of_acc hacc
    have hin := hram _ _ (portAccess_mem hagrees hport)
    rw [hport, hm]
    exact (access_storeMem hmem hin haddr).symm

/-- An access in its first cycle belongs to the instruction that has just left EX, and the
port was free then. -/
theorem departs_of_pending {t : ℕ} (hp : R.pending t = true) :
    ∃ u, t = u + 1 ∧ R.departs u ∧ dmemAcc (R.state u).sys.wrapper = false := by
  obtain ⟨hacc, hq⟩ := Bool.and_eq_true_iff.mp hp
  rw [Bool.not_eq_true'] at hq
  cases t with
  | zero =>
    have hfresh : (R.state 0).sys.wrapper.core = coreReset (coreConfig w) := R.fresh
    rw [dmemAcc, hfresh] at hacc
    cases hacc
  | succ u =>
    obtain ⟨-, -, -, -, hsel⟩ := R.agreesAt hquiet hram u
    have hfree : dmemAcc (R.state u).sys.wrapper = false :=
      (dmemAccQ_next (R.running u) hsel).symm.trans hq
    refine ⟨u, rfl, ?_, hfree⟩
    by_contra hnot
    -- without a departure MEM is empty now
    have hMem : (R.core (u + 1)).pipe.exMem.valid = false := by
      have hst := (R.stagedAt u).pipe
      have hready : (pipeIn (coreConfig w) (R.core u) (R.coreInput u)).dmemReady =
        (R.coreInput u).dmemReady := rfl
      have hstall : memStall (R.core u).pipe (R.coreInput u).dmemReady = false := by
        rw [coreInput, core, memStall_board (R.bramInvAt u) hsel, hfree, Bool.false_and]
      rw [R.pipe_succ]
      cases hst.phase (R.coreInput u).dmemReady with
      | wait _ _ hs => exact absurd (hs.symm.trans hstall) (by simp)
      | flow hEx hs => rw [pipeNext_flow hst hEx hs]
      | busy hEx _ _ _ hm => rw [pipeNext_busy hst hEx hm]
      | leave hEx _ _ hs hm => exact absurd (exFires_eq_true.mpr ⟨hs, hm, hEx⟩) hnot
    rw [dmemAcc_of_exMem_invalid hMem] at hacc
    cases hacc

/-- **The RAM is a snapshot** of the sequential machine. -/
theorem dataRam_eq (t : ℕ) {addr : Word} (haddr : InRam w addr) :
    (R.state t).sys.dmem.mem (bramIndex w addr) =
      (R.machine (R.stored t)).mem (wordIndex addr) := by
  cases hp : R.pending t with
  | false =>
    rw [R.dataRam_of_not_pending hquiet hram hp haddr, stored, hp]
    rfl
  | true =>
    obtain ⟨u, rfl, hdeparts, hfree⟩ := R.departs_of_pending hquiet hram hp
    have hpending : R.pending u = false := by rw [pending, hfree, Bool.false_and]
    have hstored : R.stored (u + 1) = Nat.count R.departs u := by
      rw [stored, hp, if_pos rfl, Nat.count_succ, if_pos hdeparts, Nat.add_sub_cancel]
    have hkeep : (R.state (u + 1)).sys.dmem.mem = (R.state u).sys.dmem.mem := by
      have hnext := dmem_next (s := (R.state u).sys) (R.running u)
      rw [dmemSelBram, hfree, Bool.false_and, Bool.false_and, if_neg Bool.false_ne_true] at hnext
      exact hnext
    rw [hkeep, R.dataRam_of_not_pending hquiet hram hpending haddr, hstored]
    rfl

theorem count_le_stored (t : ℕ) : Nat.count R.departs t ≤ R.stored (t + 1) := by
  rw [stored]
  split_ifs with hp
  · obtain ⟨u, hu, hdeparts, -⟩ := R.departs_of_pending hquiet hram hp
    obtain rfl := Nat.succ.inj hu
    rw [Nat.count_succ, if_pos hdeparts, Nat.add_sub_cancel]
  · exact Nat.count_monotone R.departs (Nat.le_succ t)

omit hquiet hram in
theorem stored_le_count (t : ℕ) : R.stored t ≤ Nat.count R.departs t := by
  rw [stored]
  split_ifs
  · exact Nat.sub_le _ _
  · exact le_rfl

/-- The snapshots never go back. -/
theorem stored_mono : Monotone R.stored := by
  refine monotone_nat_of_le_succ fun t => ?_
  exact (R.stored_le_count t).trans (R.count_le_stored hquiet hram t)

/-- Every instruction gets into a snapshot. -/
theorem exists_le_stored (k : ℕ) : ∃ t, k ≤ R.stored t := by
  obtain ⟨hevents, -⟩ := Schedule.scheduled
    (fun k => (R.machine k).gap (coreConfig w) R.program)
    R.departs_iff (R.remaining_next hquiet hram) (R.remaining_set hquiet hram)
  obtain ⟨-, hcount⟩ := hevents k
  have hstored := R.count_le_stored hquiet hram
    (Schedule.time (R.remaining 0) (fun k => (R.machine k).gap (coreConfig w) R.program) k)
  rw [hcount] at hstored
  exact ⟨_, hstored⟩

end inRam

end BoardRun

end RiscvV2
