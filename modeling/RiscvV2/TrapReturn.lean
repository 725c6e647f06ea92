import RiscvV2.CsrInvariant
import RiscvV2.Interrupt

/-!
# From trap entry to MRET

A trap clears `mstatus.MIE` and saves it in `MPIE`, an MRET moves `MPIE` back. In the clocked
process of the CSR file the trap capture comes last, so that it wins over the CSR write of the
same instruction; MRET loses to a trap in EX already.

A trap handler relies on two things: that it is not interrupted before it has saved what it
needs, and that its MRET takes the program back to where it was, with interrupts enabled as they
were. Both are statements about runs of any length between two events. They are proved with one
invariant each, kept by every cycle in which none of the events happens that may break it; a
reset, a further trap and the writes of CSR instructions are among these events.
-/

namespace RiscvV2

variable {n : ℕ} {c : Config}

/-! ## The interrupt-enable stack after an edge -/

section next

variable (s : Csr) (i : CsrIn n)

theorem csrNext_mstatusMie :
    (csrNext s i).mstatusMie =
      if i.trapEn then false
      else if i.mretEn then s.mstatusMpie
      else if i.we = true ∧ i.waddr = csrMstatus then i.wdata.getLsbD mstatusMieBit
      else s.mstatusMie := by
  simp only [csrNext]
  cases i.trapEn <;> cases i.mretEn <;> cases i.we <;>
    simp [Csr.trap, Csr.mret, Csr.write_mstatusMie, Csr.sample]

theorem csrNext_mstatusMpie :
    (csrNext s i).mstatusMpie =
      if i.trapEn then s.mstatusMie
      else if i.mretEn then false
      else if i.we = true ∧ i.waddr = csrMstatus then i.wdata.getLsbD mstatusMpieBit
      else s.mstatusMpie := by
  simp only [csrNext]
  cases i.trapEn <;> cases i.mretEn <;> cases i.we <;>
    simp [Csr.trap, Csr.mret, Csr.write_mstatusMpie, Csr.sample]

theorem csrNext_mstatusMpp_of_mret (ht : i.trapEn = false) (hm : i.mretEn = true) :
    (csrNext s i).mstatusMpp = 0#2 := by
  simp [csrNext, ht, hm, Csr.mret]

end next

/-! ## Events

What happens at a clock edge, in terms of the instruction in EX. The statement of the bracket is
in these terms only. -/

/-- The CSR instruction in EX writes the CSR at `addr`, trapping or not. -/
def WritesCsr (s : Core) (i : CoreIn n) (addr : BitVec 12) : Prop :=
  i.reset = false ∧ (exCsrWrite s.pipe i.dmemReady).isSome = true ∧
    s.pipe.idEx.ctrl.csrAddr = addr

/-- What may enable interrupts again: an MRET commits, or a CSR instruction that sets bit 3
of `mstatus`. -/
def EnablesInterrupts (c : Config) (s : Core) (i : CoreIn n) : Prop :=
  CommitsMret c s i ∨
    i.reset = false ∧ exTrap c s.pipe i.dmemReady = none ∧
      s.pipe.idEx.ctrl.csrAddr = csrMstatus ∧
      ∃ v ∈ exCsrWrite s.pipe i.dmemReady, v.getLsbD mstatusMieBit = true

/-- Nothing happens in this cycle that concerns the saved state of a trap. -/
structure Undisturbed (c : Config) (s : Core) (i : CoreIn n) : Prop where
  noReset : i.reset = false
  noTrap : ¬ TakesTrap c s i
  noMret : ¬ CommitsMret c s i
  noMstatus : ¬ WritesCsr s i csrMstatus
  noMepc : ¬ WritesCsr s i csrMepc

instance {s : Core} {i : CoreIn n} {addr : BitVec 12} : Decidable (WritesCsr s i addr) :=
  inferInstanceAs (Decidable (_ ∧ _ ∧ _))

instance {s : Core} {i : CoreIn n} : Decidable (Undisturbed c s i) :=
  decidable_of_iff (i.reset = false ∧ ¬ TakesTrap c s i ∧ ¬ CommitsMret c s i ∧
      ¬ WritesCsr s i csrMstatus ∧ ¬ WritesCsr s i csrMepc)
    ⟨fun ⟨h1, h2, h3, h4, h5⟩ => ⟨h1, h2, h3, h4, h5⟩,
      fun ⟨h1, h2, h3, h4, h5⟩ => ⟨h1, h2, h3, h4, h5⟩⟩

instance {s : Core} {i : CoreIn n} : Decidable (EnablesInterrupts c s i) :=
  inferInstanceAs (Decidable (_ ∨ _ ∧ _ ∧ _ ∧ ∃ v ∈ _, _))

/-! ## The edge in terms of the events

The enables of the CSR file are combinations of valid bits and stalls. Each is shown to be up
exactly at the edge of its event. -/

/-- An instruction that is an MRET is not held back by the multicycle units. -/
theorem Staged.fires_of_mretEn {p : Pipe} {i : PipeIn n} (hst : Staged p)
    (h : (csrIn c p i).mretEn = true) :
    exFires p i.dmemReady = true ∧ p.idEx.ctrl.isMret = true := by
  simp only [csrIn, Bool.and_eq_true, Bool.not_eq_true'] at h
  obtain ⟨⟨hEx, hs⟩, hmret⟩ := h
  refine ⟨exFires_eq_true.mpr ⟨hs, ?_, hEx⟩, hmret⟩
  by_contra hm
  have hop := isMulDiv_of_mStall (Bool.eq_true_of_not_eq_false hm)
  obtain ⟨-, -, -, -, -, -, -, hjump, -⟩ := (hst.coherent hEx).mulDiv hop
  rw [Ctrl.isJump, hmret] at hjump
  cases hjump

theorem csrIn_write {p : Pipe} {i : PipeIn n} (h : (csrIn c p i).we = true) :
    exCsrWrite p i.dmemReady = some (csrIn c p i).wdata := by
  obtain ⟨-, hw⟩ := Bool.and_eq_true_iff.mp h
  obtain ⟨v, hv⟩ := Option.isSome_iff_exists.mp hw
  rw [hv]
  exact congrArg some (congrArg (Option.getD · 0#32) hv).symm

section run

variable {x : ℕ → CoreIn c.numExtInterrupts} {t : ℕ}

theorem coreAt_staged (c : Config) (x : ℕ → CoreIn c.numExtInterrupts) (t : ℕ) :
    Staged (coreAt c x t).pipe := by
  have hrun : (coreSystem c).Run (coreReset c) x := fun _ => trivial
  exact (coreStaged_of_reachable (hrun.reachable (.init rfl) t)).pipe

/-- The port of the CSR file in cycle `t`. -/
def csrPort (c : Config) (x : ℕ → CoreIn c.numExtInterrupts) (t : ℕ) :
    CsrIn c.numExtInterrupts :=
  csrIn c (coreAt c x t).pipe (pipeIn c (coreAt c x t) (x t))

theorem trapEn_iff (hreset : (x t).reset = false) :
    (csrPort c x t).trapEn = true ↔ TakesTrap c (coreAt c x t) (x t) := by
  refine trapEn_eq_true.trans ⟨fun h => ⟨hreset, h⟩, fun h => h.2⟩

theorem trapEn_eq_false :
    (csrPort c x t).trapEn = false ↔ exTrap c (coreAt c x t).pipe (x t).dmemReady = none := by
  rw [Bool.eq_false_iff, ← Option.isNone_iff_eq_none, ← Option.not_isSome, Bool.not_eq_true',
    Bool.eq_false_iff]
  exact not_congr trapEn_eq_true

theorem mretEn_of_commits (h : CommitsMret c (coreAt c x t) (x t)) :
    (csrPort c x t).trapEn = false ∧ (csrPort c x t).mretEn = true := by
  obtain ⟨-, hf, hmret, hnone⟩ := h
  obtain ⟨hs, -, hEx⟩ := exFires_eq_true.mp hf
  exact ⟨trapEn_eq_false.mpr hnone, by simp [csrPort, csrIn, hs, hEx, hmret]⟩

theorem commits_of_mretEn (hreset : (x t).reset = false)
    (htrap : (csrPort c x t).trapEn = false) (hmret : (csrPort c x t).mretEn = true) :
    CommitsMret c (coreAt c x t) (x t) := by
  obtain ⟨hf, hm⟩ := (coreAt_staged c x t).fires_of_mretEn hmret
  exact ⟨hreset, hf, hm, trapEn_eq_false.mp htrap⟩

/-- **A cycle that enables no interrupts keeps `MIE` clear.** -/
theorem mie_clear_step (h : (coreAt c x t).pipe.csr.mstatusMie = false)
    (hu : ¬ EnablesInterrupts c (coreAt c x t) (x t)) :
    (coreAt c x (t + 1)).pipe.csr.mstatusMie = false := by
  cases hreset : (x t).reset with
  | true =>
    have hnext : coreAt c x (t + 1) = coreReset c := coreNext_of_reset hreset
    rw [hnext]
    rfl
  | false =>
    rw [csr_coreAt_succ hreset, csrNext_mstatusMie]
    split_ifs with htrap hmret hw
    · rfl
    · have hnot := Bool.eq_false_iff.mpr htrap
      exact absurd (.inl (commits_of_mretEn hreset hnot hmret)) hu
    · -- the write of a trapping instruction was overridden above
      by_contra hbit
      have hnone := trapEn_eq_false.mp (Bool.eq_false_iff.mpr htrap)
      exact hu (.inr ⟨hreset, hnone, hw.2, _, csrIn_write hw.1,
        Bool.eq_true_of_not_eq_false hbit⟩)
    · exact h

theorem mie_clear_of_trap (h : TakesTrap c (coreAt c x t) (x t)) :
    (coreAt c x (t + 1)).pipe.csr.mstatusMie = false := by
  rw [csr_coreAt_succ h.1, csrNext_mstatusMie]
  exact if_pos ((trapEn_iff h.1).mpr h)

/-- What a trap saves is in place: `pc` in `mepc`, the old `MIE` in `MPIE`. -/
structure TrapSaved (pc : Word) (mie : Bool) (s : Core) : Prop where
  mepc : s.pipe.csr.mepc = pc
  mpie : s.pipe.csr.mstatusMpie = mie

theorem trapSaved_of_trap (h : TakesTrap c (coreAt c x t) (x t)) :
    TrapSaved (coreAt c x t).pipe.idEx.pc (coreAt c x t).pipe.csr.mstatusMie
      (coreAt c x (t + 1)) := by
  have htrap := (trapEn_iff h.1).mpr h
  constructor
  case mepc =>
    rw [csr_coreAt_succ h.1, csrNext_mepc]
    exact if_pos htrap
  case mpie =>
    rw [csr_coreAt_succ h.1, csrNext_mstatusMpie]
    exact if_pos htrap

/-- **An undisturbed cycle keeps what the trap saved.** -/
theorem TrapSaved.step {pc : Word} {mie : Bool} (h : TrapSaved pc mie (coreAt c x t))
    (hu : Undisturbed c (coreAt c x t) (x t)) : TrapSaved pc mie (coreAt c x (t + 1)) := by
  have htrap : (csrPort c x t).trapEn = false := by
    by_contra hs
    exact hu.noTrap ((trapEn_iff hu.noReset).mp (Bool.eq_true_of_not_eq_false hs))
  have hmret : (csrPort c x t).mretEn = false := by
    by_contra hs
    exact hu.noMret (commits_of_mretEn hu.noReset htrap (Bool.eq_true_of_not_eq_false hs))
  have hwrites : ∀ addr, (csrPort c x t).we = true ∧ (csrPort c x t).waddr = addr →
      WritesCsr (coreAt c x t) (x t) addr := by
    rintro addr ⟨hwe, haddr⟩
    exact ⟨hu.noReset, (Bool.and_eq_true_iff.mp hwe).2, haddr⟩
  constructor
  case mepc =>
    rw [csr_coreAt_succ hu.noReset, csrNext_mepc, ← csrPort, htrap,
      if_neg fun hw => hu.noMepc (hwrites _ hw)]
    exact h.mepc
  case mpie =>
    rw [csr_coreAt_succ hu.noReset, csrNext_mstatusMpie, ← csrPort, htrap, hmret,
      if_neg fun hw => hu.noMstatus (hwrites _ hw)]
    exact h.mpie

/-- The interrupt-enable stack after an MRET. -/
theorem mstatus_of_mret (h : CommitsMret c (coreAt c x t) (x t)) :
    (coreAt c x (t + 1)).pipe.csr.mstatusMie = (coreAt c x t).pipe.csr.mstatusMpie ∧
    (coreAt c x (t + 1)).pipe.csr.mstatusMpie = false ∧
    (coreAt c x (t + 1)).pipe.csr.mstatusMpp = 0#2 := by
  obtain ⟨htrap, hmret⟩ := mretEn_of_commits h
  rw [csr_coreAt_succ h.1, csrNext_mstatusMie, csrNext_mstatusMpie, ← csrPort, htrap, hmret]
  exact ⟨rfl, rfl, csrNext_mstatusMpp_of_mret _ _ htrap hmret⟩

theorem pcF_of_redirect {target : Word} (hreset : (x t).reset = false)
    (h : exRedirect c (coreAt c x t).pipe (x t).dmemReady = some target) :
    (coreAt c x (t + 1)).fetch.pcF = target := by
  have hf := exFires_of_exRedirect (Option.isSome_of_eq_some h)
  have hs := (exFires_eq_true.mp hf).1
  have hnext : (coreAt c x (t + 1)).fetch = fetchNext c (coreAt c x t) (x t) :=
    coreNext_fetch hreset
  rw [hnext]
  simp [fetchNext, pcFNext, hs, h]

end run

/-! ## Trap entry and MRET -/

/-- **Trap entry and MRET bracket the interrupt enable.** From a trap on no interrupt is taken
until an MRET commits or a CSR instruction sets `MIE`; and the first MRET after a trap undoes
it, unless another trap or a write of `mstatus` or `mepc` came between. -/
theorem trap_mret_bracket (c : Config) (x : ℕ → CoreIn c.numExtInterrupts) {t₀ t : ℕ}
    (htrap : TakesTrap c (coreAt c x t₀) (x t₀)) (ht : t₀ < t) :
    ((∀ u, t₀ < u → u < t → ¬ EnablesInterrupts c (coreAt c x u) (x u)) →
      (coreAt c x t).pipe.csr.mstatusMie = false ∧
      ¬ TakesInterrupt c (coreAt c x t).pipe (x t).dmemReady) ∧
    ((∀ u, t₀ < u → u < t → Undisturbed c (coreAt c x u) (x u)) →
      CommitsMret c (coreAt c x t) (x t) →
      exRedirect c (coreAt c x t).pipe (x t).dmemReady = some (coreAt c x t₀).pipe.idEx.pc ∧
      (coreAt c x (t + 1)).fetch.pcF = (coreAt c x t₀).pipe.idEx.pc ∧
      (coreAt c x (t + 1)).pipe.csr.mstatusMie = (coreAt c x t₀).pipe.csr.mstatusMie ∧
      (coreAt c x (t + 1)).pipe.csr.mstatusMpie = false ∧
      (coreAt c x (t + 1)).pipe.csr.mstatusMpp = 0#2) := by
  refine ⟨fun hquiet => ?_, fun hquiet hmret => ?_⟩
  · have hmie : (coreAt c x t).pipe.csr.mstatusMie = false :=
      (coreSystem c).stateAt_between (P := fun s => s.pipe.csr.mstatusMie = false) ht
        (mie_clear_of_trap htrap) fun u hlo hhi h => mie_clear_step h (hquiet u hlo hhi)
    refine ⟨hmie, fun hirq => ?_⟩
    have hactive := hirq.active
    rw [Csr.externalIrqActive, hmie] at hactive
    cases hactive
  · obtain ⟨hmepc, hmpie⟩ : TrapSaved (coreAt c x t₀).pipe.idEx.pc
        (coreAt c x t₀).pipe.csr.mstatusMie (coreAt c x t) :=
      (coreSystem c).stateAt_between ht (trapSaved_of_trap htrap)
        fun u hlo hhi h => h.step (hquiet u hlo hhi)
    have hred := exRedirect_of_mret hmret
    rw [hmepc] at hred
    obtain ⟨hmie, hmpie', hmpp⟩ := mstatus_of_mret hmret
    exact ⟨hred, pcF_of_redirect hmret.1 hred, hmie.trans hmpie, hmpie', hmpp⟩

/-- The handler at 0 is a single `mret`; the program at 8 is `csrrwi x0, mstatus, 8; ecall`. -/
def trapAndReturn (addr : Word) : Word :=
  match addr.extractLsb' 2 30 with
  | 0#30 => 0x30200073#32
  | 2#30 => 0x30045073#32
  | _ => 0x00000073#32

/-- The `ecall` at 12 traps in cycle 5, the handler's `mret` commits in cycle 9. -/
theorem trap_mret_bracket_ecall :
    let c : Config := { resetPc := 8 }
    let x := romRun c trapAndReturn
    (coreAt c x 8).pipe.csr.mstatusMie = false ∧
    exRedirect c (coreAt c x 9).pipe (x 9).dmemReady = some 12#32 ∧
    (coreAt c x 10).pipe.csr.mstatusMie = true := by
  intro c x
  have htrap : TakesTrap c (coreAt c x 5) (x 5) := by decide
  have hu : ∀ u < 9, 5 < u → Undisturbed c (coreAt c x u) (x u) := by decide
  have he : ∀ u < 9, 5 < u → ¬ EnablesInterrupts c (coreAt c x u) (x u) := by decide
  have hmret : CommitsMret c (coreAt c x 9) (x 9) := by decide
  obtain ⟨hred, -, hmie, -⟩ := (trap_mret_bracket c x htrap (t := 9) (by omega)).2
    (fun u hlo hhi => hu u hhi hlo) hmret
  have hpc : (coreAt c x 5).pipe.idEx.pc = 12#32 ∧
    (coreAt c x 5).pipe.csr.mstatusMie = true := by decide
  refine ⟨((trap_mret_bracket c x htrap (t := 8) (by omega)).1 fun u hlo hhi =>
    he u (by omega) hlo).1, hred.trans (congrArg some hpc.1), hmie.trans hpc.2⟩

end RiscvV2
