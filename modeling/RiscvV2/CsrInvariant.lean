import RiscvV2.FetchProtocol

/-!
# Well-formed CSRs

Several CSRs have read-only bits: `mepc[1:0]`, every bit of `mie` but `MEIE`, and the bits of
`meimask` and `meipend` without an interrupt input. Each has more than one writer. The write
of a CSR instruction masks all of them; the trap capture stores the pc of EX into `mepc` as it
is, so `mepc` is well formed exactly as long as no instruction at a misaligned pc traps.

The last section follows the misaligned pc to its origin. Along the chain of pcs only a jump can
bring one in, so with a word-aligned reset pc and a memory that keeps the fetch protocol the
CSRs are well formed in every run in which no jump goes to an address with bit 1 set.
-/

namespace RiscvV2

variable {n : ℕ}

/-! ## Registers of the CSR file after an edge -/

section next

variable (s : Csr) (i : CsrIn n)

theorem csrNext_mepc :
    (csrNext s i).mepc =
      if i.trapEn then i.trapEpc
      else if i.we = true ∧ i.waddr = csrMepc then i.wdata &&& 0xfffffffc#32
      else s.mepc := by
  simp only [csrNext]
  cases i.trapEn <;> cases i.mretEn <;> cases i.we <;>
    simp [Csr.trap, Csr.mret, Csr.write_mepc, Csr.sample]

theorem csrNext_mie :
    (csrNext s i).mie =
      if i.we = true ∧ i.waddr = csrMie then i.wdata &&& (1#32 <<< mieMeieBit) else s.mie := by
  simp only [csrNext]
  cases i.trapEn <;> cases i.mretEn <;> cases i.we <;>
    simp [Csr.trap, Csr.mret, Csr.write_mie, Csr.sample]

theorem csrNext_meimask :
    (csrNext s i).meimask =
      if i.we = true ∧ i.waddr = csrMeimask then i.wdata &&& extIrqMask n else s.meimask := by
  simp only [csrNext]
  cases i.trapEn <;> cases i.mretEn <;> cases i.we <;>
    simp [Csr.trap, Csr.mret, Csr.write_meimask, Csr.sample]

/-- The pending bits are the interrupt inputs, whatever is written. -/
theorem csrNext_meipend : (csrNext s i).meipend = i.globalInterrupts.setWidth 32 := by
  simp only [csrNext]
  cases i.trapEn <;> cases i.mretEn <;> cases i.we <;>
    simp [Csr.trap, Csr.mret, Csr.write_meipend, Csr.sample]

theorem Csr.read_csrMip :
    s.read csrMip = if s.meipend != 0#32 then 1#32 <<< mipMeipBit else 0#32 := rfl

end next

/-! ## Read-only bits

An invariant of the register file alone, with the trapping pc as a hypothesis. All masks are
constants except that of the interrupt inputs, which depends on how many there are. -/

/-- The read-only bits of the CSRs are zero; `n` is `NUM_EXT_INTERRUPTS`. -/
structure CsrWellFormed (n : ℕ) (s : Csr) : Prop where
  mepc : s.mepc.extractLsb' 0 2 = 0#2
  mie : ∀ k, k ≠ mieMeieBit → s.mie.getLsbD k = false
  meimask : ∀ k, n ≤ k → s.meimask.getLsbD k = false
  meipend : ∀ k, n ≤ k → s.meipend.getLsbD k = false

/-- The mask of the implemented interrupts has no bit at or above their number. -/
theorem getLsbD_extIrqMask {k : ℕ} (hk : n ≤ k) : (extIrqMask n).getLsbD k = false := by
  rcases Nat.lt_or_ge n 32 with hn | hn
  · have hnat : ∀ m < 32, ((1#32 <<< m) - 1#32).toNat = 2 ^ m - 1 := by decide
    rw [extIrqMask, if_neg (by omega), BitVec.getLsbD, hnat n hn, Nat.testBit_two_pow_sub_one]
    exact decide_eq_false (by omega)
  · exact BitVec.getLsbD_of_ge _ _ (hn.trans hk)

theorem CsrWellFormed.zero : CsrWellFormed n Csr.zero := by
  constructor <;> intros <;> simp [Csr.zero]

/-- Bits 1:0 do not survive the mask of a `mepc` write. -/
theorem extractLsb'_mepc_mask (v : Word) : (v &&& 0xfffffffc#32).extractLsb' 0 2 = 0#2 := by
  rw [BitVec.extractLsb'_and]
  exact BitVec.and_zero

/-- **Every write path keeps the read-only bits**, the trap capture if the trapping pc is
word-aligned. -/
theorem CsrWellFormed.next {s : Csr} {i : CsrIn n} (h : CsrWellFormed n s)
    (hepc : i.trapEn = true → i.trapEpc.extractLsb' 0 2 = 0#2) :
    CsrWellFormed n (csrNext s i) := by
  constructor
  case mepc =>
    rw [csrNext_mepc]
    split_ifs with ht hw
    · exact hepc ht
    · exact extractLsb'_mepc_mask _
    · exact h.mepc
  case mie =>
    intro k hk
    rw [csrNext_mie]
    split_ifs with hw
    · have hbit : (BitVec.twoPow 32 mieMeieBit).getLsbD k = false := by
        rw [BitVec.getLsbD_twoPow, decide_eq_false (Ne.symm hk), Bool.and_false]
      rw [BitVec.getLsbD_and]
      exact (congrArg _ hbit).trans (Bool.and_false _)
    · exact h.mie k hk
  case meimask =>
    intro k hk
    rw [csrNext_meimask]
    split_ifs with hw
    · rw [BitVec.getLsbD_and, getLsbD_extIrqMask hk, Bool.and_false]
    · exact h.meimask k hk
  case meipend =>
    intro k hk
    rw [csrNext_meipend, BitVec.getLsbD_setWidth, BitVec.getLsbD_of_ge _ _ hk, Bool.and_false]

/-! ## Runs of the core -/

/-- The edge captures a trap of the instruction in EX. -/
def TakesTrap {n : ℕ} (c : Config) (s : Core) (i : CoreIn n) : Prop :=
  i.reset = false ∧ (exTrap c s.pipe i.dmemReady).isSome = true

/-- The edge commits the MRET in EX. -/
def CommitsMret {n : ℕ} (c : Config) (s : Core) (i : CoreIn n) : Prop :=
  i.reset = false ∧ exFires s.pipe i.dmemReady = true ∧ s.pipe.idEx.ctrl.isMret = true ∧
    exTrap c s.pipe i.dmemReady = none

instance {c : Config} {s : Core} {i : CoreIn n} : Decidable (TakesTrap c s i) :=
  inferInstanceAs (Decidable (_ ∧ _))

instance {c : Config} {s : Core} {i : CoreIn n} : Decidable (CommitsMret c s i) :=
  inferInstanceAs (Decidable (_ ∧ _ ∧ _ ∧ _))

/-- The core `t` cycles after reset, with the inputs `x`. -/
def coreAt (c : Config) (x : ℕ → CoreIn c.numExtInterrupts) (t : ℕ) : Core :=
  (coreSystem c).stateAt (coreReset c) x t

/-- The CSRs are well formed throughout a run. -/
structure CsrsWellFormed (c : Config) (x : ℕ → CoreIn c.numExtInterrupts) : Prop where
  wellFormed : ∀ t, CsrWellFormed c.numExtInterrupts (coreAt c x t).pipe.csr
  /-- every MRET goes to a word-aligned address -/
  mret : ∀ t, CommitsMret c (coreAt c x t) (x t) →
    ∃ target, exRedirect c (coreAt c x t).pipe (x t).dmemReady = some target ∧
      target.extractLsb' 0 2 = 0#2
  /-- `mip` and `meipend` follow the interrupt inputs, whatever CSR instruction is in EX -/
  meipend : ∀ t, (x t).reset = false →
    (coreAt c x (t + 1)).pipe.csr.meipend = (x t).globalInterrupts.setWidth 32
  mip : ∀ t, (x t).reset = false →
    (coreAt c x (t + 1)).pipe.csr.read csrMip =
      if (x t).globalInterrupts.setWidth 32 != 0#32 then 1#32 <<< mipMeipBit else 0#32

theorem exRedirect_of_mret {c : Config} {s : Core} {i : CoreIn n} (h : CommitsMret c s i) :
    exRedirect c s.pipe i.dmemReady = some s.pipe.csr.mepc := by
  obtain ⟨-, hf, hm, ht⟩ := h
  simp [exRedirect, hf, hm, ht]

theorem trapEn_eq_true {c : Config} {p : Pipe} {i : PipeIn n} :
    (csrIn c p i).trapEn = true ↔ (exTrap c p i.dmemReady).isSome = true := by
  refine ⟨fun h => (Bool.and_eq_true_iff.mp h).2, fun h => Bool.and_eq_true_iff.mpr ⟨?_, h⟩⟩
  by_contra hEx
  rw [exTrap_of_not_fires (by simp [exFires, hEx])] at h
  cases h

theorem csr_coreAt_succ {c : Config} {x : ℕ → CoreIn c.numExtInterrupts} {t : ℕ}
    (h : (x t).reset = false) :
    (coreAt c x (t + 1)).pipe.csr =
      csrNext (coreAt c x t).pipe.csr
        (csrIn c (coreAt c x t).pipe (pipeIn c (coreAt c x t) (x t))) :=
  congrArg Pipe.csr (coreNext_pipe h)

theorem csrWellFormed_of_aligned {c : Config} {x : ℕ → CoreIn c.numExtInterrupts}
    (hx : ∀ t, TakesTrap c (coreAt c x t) (x t) →
      (coreAt c x t).pipe.idEx.pc.extractLsb' 0 2 = 0#2) (t : ℕ) :
    CsrWellFormed c.numExtInterrupts (coreAt c x t).pipe.csr := by
  induction t with
  | zero => exact .zero
  | succ t ih =>
    cases hreset : (x t).reset with
    | true =>
      have hnext : coreAt c x (t + 1) = coreReset c := coreNext_of_reset hreset
      rw [hnext]
      exact .zero
    | false =>
      rw [csr_coreAt_succ hreset]
      exact ih.next fun htrap => hx t ⟨hreset, trapEn_eq_true.mp htrap⟩

/-- The condition is enough. -/
theorem CsrsWellFormed.of_aligned {c : Config} {x : ℕ → CoreIn c.numExtInterrupts}
    (hx : ∀ t, TakesTrap c (coreAt c x t) (x t) →
      (coreAt c x t).pipe.idEx.pc.extractLsb' 0 2 = 0#2) : CsrsWellFormed c x := by
  have hwf := csrWellFormed_of_aligned hx
  constructor
  case wellFormed => exact hwf
  case mret =>
    intro t hmret
    exact ⟨_, exRedirect_of_mret hmret, (hwf t).mepc⟩
  case meipend =>
    intro t hreset
    rw [csr_coreAt_succ hreset, csrNext_meipend]
    rfl
  case mip =>
    intro t hreset
    rw [Csr.read_csrMip, csr_coreAt_succ hreset, csrNext_meipend]
    rfl

/-- **The CSRs are well formed throughout a run exactly if every instruction that traps in it
has a word-aligned pc**, for every program, memory timing, interrupt input and reset. -/
theorem csrs_well_formed_iff (c : Config) (x : ℕ → CoreIn c.numExtInterrupts) :
    CsrsWellFormed c x ↔
      ∀ t, TakesTrap c (coreAt c x t) (x t) →
        (coreAt c x t).pipe.idEx.pc.extractLsb' 0 2 = 0#2 := by
  refine ⟨?_, fun hx => .of_aligned hx⟩
  intro h t htrap
  -- the edge stores the pc as it is
  have hmepc := (h.wellFormed (t + 1)).mepc
  rwa [csr_coreAt_succ htrap.1, csrNext_mepc, if_pos (trapEn_eq_true.mpr htrap.2)] at hmepc

/-! ## Where a misaligned pc comes from

A trap stores the pc of the instruction in EX, and that pc has come from `pc_f` by way of the
fetch unit and IF/ID. Out of reset `pc_f` is `RESET_PC`, and after that the next word, a trap
vector, `mepc`, or the target of a jump. Only the last can be misaligned: the offsets of `JAL`
and of the branches are even, and `JALR` clears bit 0 of its target, but nothing clears bit 1
or traps on it. -/

theorem aligned_iff {x : Word} :
    x.extractLsb' 0 2 = 0#2 ↔ x.getLsbD 0 = false ∧ x.getLsbD 1 = false := by
  refine ⟨fun h => ⟨?_, ?_⟩, fun h => ?_⟩
  · simpa using congrArg (·.getLsbD 0) h
  · simpa using congrArg (·.getLsbD 1) h
  · obtain ⟨h0, h1⟩ := h
    refine BitVec.eq_of_getLsbD_eq fun k hk => ?_
    rcases k with _ | _ | k
    · simpa using h0
    · simpa using h1
    · omega

theorem aligned_add_four {x : Word} (h : x.extractLsb' 0 2 = 0#2) :
    (x + 4#32).extractLsb' 0 2 = 0#2 := by
  have hmod := congrArg BitVec.toNat h
  apply BitVec.eq_of_toNat_eq
  simp at hmod ⊢
  omega

theorem aligned_trapVector (mtvec : Word) : (trapVector mtvec).extractLsb' 0 2 = 0#2 := by
  refine aligned_iff.mpr ⟨?_, ?_⟩
  · rw [trapVector, BitVec.getLsbD_append]
    rfl
  · rw [trapVector, BitVec.getLsbD_append]
    rfl

theorem even_add {x y : Word} (hx : x.getLsbD 0 = false) (hy : y.getLsbD 0 = false) :
    (x + y).getLsbD 0 = false := by
  rw [BitVec.getLsbD_add (by decide), hx, hy]
  simp

section jumps

variable {c : Config} {s : Core} {g : FetchLog} {i : CoreIn n}

/-- At this edge the `JALR`, `JAL` or taken branch in EX redirects the fetch unit. -/
structure JumpsTo (c : Config) (s : Core) (i : CoreIn n) (target : Word) : Prop where
  running : i.reset = false
  redirect : exRedirect c s.pipe i.dmemReady = some target
  noTrap : exTrap c s.pipe i.dmemReady = none
  noMret : s.pipe.idEx.ctrl.isMret = false

/-- The pcs that an instruction or a later one can have. -/
structure PcsAligned (s : Core) : Prop where
  pcF : s.fetch.pcF.extractLsb' 0 2 = 0#2
  ifId : s.pipe.ifId.valid = true → s.pipe.ifId.pc.extractLsb' 0 2 = 0#2
  idEx : s.pipe.idEx.valid = true → s.pipe.idEx.pc.extractLsb' 0 2 = 0#2
  /-- the target of a jump was computed in ID -/
  target : s.pipe.idEx.valid = true →
    s.pipe.idEx.redirectTarget = s.pipe.idEx.pc + s.pipe.idEx.imm
  mepc : s.pipe.csr.mepc.extractLsb' 0 2 = 0#2

/-- With jumps to word-aligned addresses only, every redirect is one. -/
theorem PcsAligned.redirect (h : PcsAligned s) (hst : Staged s.pipe) (hreset : i.reset = false)
    (hjump : ∀ target, JumpsTo c s i target → target.getLsbD 1 = false) {target : Word}
    (hr : exRedirect c s.pipe i.dmemReady = some target) : target.extractLsb' 0 2 = 0#2 := by
  have hf := exFires_of_exRedirect (c := c) (p := s.pipe) (r := i.dmemReady) (by rw [hr]; rfl)
  obtain ⟨-, -, hEx⟩ := exFires_eq_true.mp hf
  have htaken : exTrap c s.pipe i.dmemReady = none → s.pipe.idEx.ctrl.isMret = false →
      target.getLsbD 0 = false → target.extractLsb' 0 2 = 0#2 :=
    fun htrap hmret heven => aligned_iff.mpr ⟨heven, hjump target ⟨hreset, hr, htrap, hmret⟩⟩
  -- the offset of a `JAL` or a branch is even, and so is the pc that it is added to
  have heven : s.pipe.idEx.ctrl.jal = true ∨ s.pipe.idEx.ctrl.branchKind ≠ .none →
      s.pipe.idEx.redirectTarget.getLsbD 0 = false := by
    intro hkind
    obtain ⟨instr, hctrl, himm⟩ := hst.decoded hEx
    rw [hctrl] at hkind
    have hoffset := riscvDecode_evenJump instr hkind
    rw [h.target hEx, himm]
    exact even_add (aligned_iff.mp (h.idEx hEx)).1 hoffset
  rw [exRedirect, if_pos hf] at hr
  cases htrap : exTrap c s.pipe i.dmemReady with
  | some trap =>
    rw [htrap, Option.isSome_some, if_pos rfl] at hr
    obtain rfl := Option.some.inj hr
    exact aligned_trapVector _
  | none =>
    cases hmret : s.pipe.idEx.ctrl.isMret with
    | true =>
      rw [htrap, hmret, Option.isSome_none, if_neg Bool.false_ne_true, if_pos rfl] at hr
      obtain rfl := Option.some.inj hr
      exact h.mepc
    | false =>
      refine htaken htrap hmret ?_
      rw [htrap, hmret, Option.isSome_none, if_neg Bool.false_ne_true,
        if_neg Bool.false_ne_true] at hr
      split_ifs at hr with hjalr hjal hbranch
      · obtain rfl := Option.some.inj hr
        rw [BitVec.getLsbD_and]
        exact Bool.and_false _
      · obtain rfl := Option.some.inj hr
        exact heven (.inl hjal)
      · obtain rfl := Option.some.inj hr
        exact heven (.inr hbranch.1)

theorem pcsAligned_reset (haligned : c.resetPc.extractLsb' 0 2 = 0#2) :
    PcsAligned (coreReset c) where
  pcF := haligned
  ifId hv := by cases hv
  idEx hv := by cases hv
  target hv := by cases hv
  mepc := rfl

/-- **Step lemma**: a cycle without a jump to a misaligned address keeps the pcs aligned. -/
theorem PcsAligned.next (haligned : c.resetPc.extractLsb' 0 2 = 0#2) (h : PcsAligned s)
    (hst : Staged s.pipe) (hI : FetchInv c s g) (hok : fetchAllowed g s i)
    (hjump : ∀ target, JumpsTo c s i target → target.getLsbD 1 = false) :
    PcsAligned (coreNext c s i) := by
  cases hreset : i.reset with
  | true =>
    rw [coreNext_of_reset hreset]
    exact pcsAligned_reset haligned
  | false =>
    have hredirect : ∀ target, exRedirect c s.pipe i.dmemReady = some target →
        target.extractLsb' 0 2 = 0#2 := fun _ hr => h.redirect hst hreset hjump hr
    have hpipe := coreNext_pipe (c := c) (s := s) hreset
    constructor
    case pcF =>
      rw [coreNext_fetch hreset]
      cases hr : exRedirect c s.pipe i.dmemReady with
      | some target =>
        rw [fetchNext_redirect hr]
        exact hredirect target hr
      | none =>
        rw [fetchNext_pcF, pcFNext_of_none hr]
        split_ifs with ha
        · exact aligned_add_four h.pcF
        · exact h.pcF
    case ifId =>
      rw [hpipe]
      intro hv
      obtain ⟨hId, heq⟩ | ⟨ha, heq⟩ := ifId_stays_or_loads hv
      · rw [heq]
        exact h.ifId hId
      · -- a response comes with the address that it was asked for with
        rw [heq]
        change (ifRespPc s.fetch i.imemRespPc).extractLsb' 0 2 = 0#2
        rw [hI.accepted_pc hok ha]
        exact h.pcF
    case idEx =>
      rw [hpipe]
      intro hv
      obtain ⟨hEx, heq⟩ | ⟨hId, heq⟩ := idEx_stays_or_issues hv
      · rw [heq]
        exact h.idEx hEx
      · rw [heq]
        exact h.ifId hId
    case target =>
      rw [hpipe]
      intro hv
      obtain ⟨hEx, heq⟩ | ⟨-, heq⟩ := idEx_stays_or_issues hv
      · rw [heq]
        exact h.target hEx
      · rw [heq]
        rfl
    case mepc =>
      rw [hpipe]
      change (csrNext s.pipe.csr (csrIn c s.pipe (pipeIn c s i))).mepc.extractLsb' 0 2 = 0#2
      rw [csrNext_mepc]
      split_ifs with ht hw
      · obtain ⟨hEx, -⟩ := Bool.and_eq_true_iff.mp ht
        exact h.idEx hEx
      · exact extractLsb'_mepc_mask _
      · exact h.mepc

/-- **Where a misaligned pc comes from.** With a word-aligned reset pc and an instruction
memory that keeps the fetch protocol, the CSRs are well formed throughout every run in which
no `JALR`, `JAL` or taken branch goes to an address with bit 1 set. -/
theorem csrs_well_formed_of_jumps (haligned : c.resetPc.extractLsb' 0 2 = 0#2)
    {x : ℕ → CoreIn c.numExtInterrupts} (hx : (fetchSystem c).Run ⟨coreReset c, {}⟩ x)
    (hjump : ∀ t target, JumpsTo c (coreAt c x t) (x t) target → target.getLsbD 1 = false) :
    CsrsWellFormed c x := by
  have hpcs : ∀ t, PcsAligned (coreAt c x t) := by
    intro t
    induction t with
    | zero => exact pcsAligned_reset haligned
    | succ t ih =>
      have hreach := hx.reachable (.init ⟨rfl, rfl⟩) t
      have hsys : ((fetchSystem c).stateAt ⟨coreReset c, {}⟩ x t).sys = coreAt c x t :=
        Clocked.stateAt_sys _ x t
      have hst := coreStaged_of_reachable hreach.sys
      have hI := fetchInv_of_reachable hreach
      have hok := (hx t).2
      rw [hsys] at hst hI hok
      exact ih.next haligned hst.pipe hI hok (hjump t)
  refine CsrsWellFormed.of_aligned fun t htrap => ?_
  have hf : exFires (coreAt c x t).pipe (x t).dmemReady = true := by
    by_contra hf
    have hnone := exTrap_of_not_fires (c := c) (Bool.eq_false_iff.mpr hf)
    obtain ⟨-, htrap⟩ := htrap
    rw [hnone] at htrap
    cases htrap
  obtain ⟨-, -, hEx⟩ := exFires_eq_true.mp hf
  exact (hpcs t).idEx hEx

end jumps

/-! ## A misaligned trap

A run in which the condition fails: a `JALR` to address 10 is taken without an exception, and
the `ecall` at that address leaves 10 in `mepc`. -/

/-- Memories without wait states: the word fetched is the one `rom` holds for `imem_addr`,
which is also the pc of the response. -/
def romInput (n : ℕ) (rom : Word → Word) (s : Core) : CoreIn n where
  imemReady := true
  imemInstr := rom (imemAddr s.fetch)
  imemRespPc := imemAddr s.fetch
  dmemReady := true

/-- The run of a program in memories without wait states. -/
def romRun (c : Config) (rom : Word → Word) (t : ℕ) : CoreIn c.numExtInterrupts :=
  romInput c.numExtInterrupts rom ((coreSystem c).loop (romInput c.numExtInterrupts rom)
    (coreReset c) t)

theorem coreAt_romRun (c : Config) (rom : Word → Word) (t : ℕ) :
    coreAt c (romRun c rom) t =
      (coreSystem c).loop (romInput c.numExtInterrupts rom) (coreReset c) t :=
  (coreSystem c).stateAt_loop _ _ t

/-- `addi x1, x0, 10; jalr x0, 0(x1); ecall`: the `ecall` runs at the pc 10. -/
def misalignedEcall (addr : Word) : Word :=
  match addr.extractLsb' 2 30 with
  | 0#30 => 0x00a00093#32
  | 1#30 => 0x00008067#32
  | _ => 0x00000073#32

/-- The trap of the `ecall` leaves 10 in `mepc`. -/
theorem csrs_not_well_formed : ¬ ∀ x, CsrsWellFormed {} x := by
  intro h
  have hmepc := ((h (romRun {} misalignedEcall)).wellFormed 12).mepc
  rw [coreAt_romRun] at hmepc
  revert hmepc
  decide

end RiscvV2
