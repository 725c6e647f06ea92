import RiscvV2.BoardTiming

/-!
# The board never hangs

The core on the board with any program, interrupts and accesses to the peripherals included.
The block RAMs answer in fixed time and the master answers when the slave does, so the
memories of the core are fair and the core is live.

Fairness has to be shown for two kinds of accesses. One to a block RAM is answered in its second
cycle. One to a peripheral is answered when the master has finished its transaction, and that it
does follows from its own liveness, since the core is a requester that holds its requests. That
the slave answers in this run is the one hypothesis that is left.
-/

namespace RiscvV2

variable {w : WrapperConfig}

namespace BoardRun

variable (R : BoardRun w)

/-- The inputs of the master in cycle `t`. -/
def masterInput (t : ℕ) : MasterIn :=
  masterIn w (R.state t).sys.wrapper (boardIn (R.state t).sys (R.input t))

/-- The master when the core is released, with an empty record. -/
def masterStart : Clocked.Recorded Master MasterLog := ⟨R.start.sys.wrapper.master, {}⟩

/-- The slave on the peripheral bus answers what the master offers. -/
def PeriphAnswers : Prop := SlaveServes R.masterStart R.masterInput

/-! ## The master on the board

The inputs of the master in a run of the board make a run of the master alone, so that
`request_answered` applies. -/

theorem masterAt_eq (t : ℕ) :
    masterAt R.masterStart R.masterInput t = (R.state t).sys.wrapper.master := by
  induction t with
  | zero => rfl
  | succ t ih =>
    rw [masterAt_succ, ih]
    rfl

theorem masterRequest_at (t : ℕ) :
    masterRequest (R.masterInput t) = portRequest w (R.state t).sys.wrapper := masterRequest_eq

/-- A request that is not answered in a cycle is there in the next one. -/
theorem portRequest_succ {t : ℕ} {q : MasterRequest}
    (hq : portRequest w (R.state t).sys.wrapper = some q)
    (hready : reqReady (R.state t).sys.wrapper.master (R.masterInput t) = false) :
    portRequest w (R.state (t + 1)).sys.wrapper = some q := by
  obtain ⟨hsel, -⟩ := portRequest_eq_some hq
  have hwait : dmemReady w (R.state t).sys.wrapper (boardIn (R.state t).sys (R.input t)) =
      false := by
    rw [dmemReady, if_pos hsel]
    exact hready
  have hrunning : cpuReset (R.state t).sys.wrapper (boardIn (R.state t).sys (R.input t)) = false :=
    R.running t
  have hMem := (R.bramInvAt t).wrapper.port.wait hrunning (dmemAcc_of_selAxi hsel) hwait
  exact (portRequest_congr hMem).trans hq

/-- The record of the master never holds another request than the one on the port. -/
theorem masterLog_held (t : ℕ) {q : MasterRequest}
    (hq : (masterSystem.stateAt R.masterStart R.masterInput t).log.held = some q) :
    portRequest w (R.state t).sys.wrapper = some q := by
  cases t with
  | zero => cases hq
  | succ t =>
    have hstate : (masterSystem.stateAt R.masterStart R.masterInput t).sys =
        (R.state t).sys.wrapper.master := R.masterAt_eq t
    have hheld : (if reqReady (masterSystem.stateAt R.masterStart R.masterInput t).sys
        (R.masterInput t) then none else masterRequest (R.masterInput t)) = some q := hq
    rw [hstate, R.masterRequest_at] at hheld
    split_ifs at hheld with hready
    exact R.portRequest_succ hheld (Bool.eq_false_iff.mpr hready)

/-- **The core holds its requests to the master.** -/
theorem master_run : masterSystem.Run R.masterStart R.masterInput := by
  intro t
  refine ⟨trivial, R.running t, ?_, fun q hq => ?_⟩
  · rintro ⟨hread, hwrite⟩
    have hboth := (R.bramInvAt t).wrapper.port.not_both (Bool.and_eq_true_iff.mp hwrite).2
    have hread' := (Bool.and_eq_true_iff.mp hread).2
    rw [hboth] at hread'
    cases hread'
  · rw [R.masterRequest_at]
    exact R.masterLog_held t hq

/-- A master that answers does so for the access on the port. -/
theorem dmemSelAxi_of_reqReady {t : ℕ}
    (h : reqReady (R.state t).sys.wrapper.master (R.masterInput t) = true) :
    dmemSelAxi w (R.state t).sys.wrapper = true := by
  obtain ⟨cur, held, hp, hport⟩ := (R.bramInvAt t).wrapper.serves
  obtain hnone | hsome := hport
  · rw [hnone] at hp
    cases hp with
    | idle hs => simp [reqReady, hs] at h
  · cases hq : portRequest w (R.state t).sys.wrapper with
    | none =>
      rw [hsome, hq] at hp
      cases hp with
      | idle hs => simp [reqReady, hs] at h
    | some q => exact (portRequest_eq_some hq).1

/-! ## Fair memories -/

/-- An access to a block RAM is answered in this cycle or the next. -/
theorem bram_answered {t : ℕ} (hsel : dmemSelBram w (R.state t).sys.wrapper = true) :
    ∃ u, t ≤ u ∧ (R.coreInput u).dmemReady = true := by
  obtain ⟨hage, hready, -⟩ := (R.bramInvAt t).second_cycle (R.input t) hsel
  by_cases hfirst : (R.state t).log.age = 1
  · exact ⟨t, le_rfl, hready.mpr hfirst⟩
  · obtain ⟨hMem, hage'⟩ := (R.bramInvAt t).first_cycle hsel (by omega) (R.running t)
    obtain ⟨hacc, hselAxi⟩ := dmemSel_congr (w := w) hMem
    have hsel' : dmemSelBram w (R.state (t + 1)).sys.wrapper = true := by
      rw [dmemSelBram] at hsel ⊢
      exact (congrArg₂ (fun a b => a && !b) hacc hselAxi).trans hsel
    obtain ⟨-, hready', -⟩ := (R.bramInvAt (t + 1)).second_cycle (R.input (t + 1)) hsel'
    exact ⟨t + 1, Nat.le_succ t, hready'.mpr hage'⟩

variable (hslave : R.PeriphAnswers)

include hslave

/-- An access to a peripheral is answered when the slave has answered the master. -/
theorem axi_answered {t : ℕ} (hsel : dmemSelAxi w (R.state t).sys.wrapper = true) :
    ∃ u, t ≤ u ∧ (R.coreInput u).dmemReady = true := by
  have hrequest : masterRequest (R.masterInput t) ≠ none := by
    rw [R.masterRequest_at, ← Option.isSome_iff_ne_none, portRequest_isSome, hsel]
  obtain ⟨u, hu, hready⟩ := request_answered R.master_run hslave hrequest
  rw [R.masterAt_eq] at hready
  refine ⟨u, hu, ?_⟩
  have hselU := R.dmemSelAxi_of_reqReady hready
  have hcore : (R.coreInput u).dmemReady =
      dmemReady w (R.state u).sys.wrapper (boardIn (R.state u).sys (R.input u)) := rfl
  rw [hcore, dmemReady, if_pos hselU]
  exact hready

omit hslave in
/-- The core on the board is a run of the core with an instruction memory that keeps the
protocol. -/
theorem fetch_hosted (t : ℕ) :
    (fetchSystem (coreConfig w)).Reachable
        ((fetchSystem (coreConfig w)).stateAt R.hostedStart.sys R.coreInput t) ∧
      coreAfter (coreConfig w) R.hostedStart.sys R.coreInput t = R.core t := by
  induction t with
  | zero => exact ⟨.init ⟨rfl, rfl⟩, R.fresh.symm⟩
  | succ t ih =>
    obtain ⟨hreach, hcore⟩ := ih
    have hok := board_fetchAllowed (R.bramInvAt t) (fetchInv_of_reachable hreach) hcore
      (R.running t)
    refine ⟨hreach.tick ⟨trivial, hok⟩, ?_⟩
    exact congrArg (fun s => coreNext (coreConfig w) s (R.coreInput t)) hcore

/-- The memories of the core on the board are fair. -/
theorem answering : Answering (coreConfig w) R.hostedStart.sys R.coreInput where
  imem := by
    refine LeadsTo.of_imp fun t hu => ?_
    obtain ⟨hreach, hcore⟩ := R.fetch_hosted t
    have hdiscard : (R.core t).fetch.ifDiscardPending = false := (R.bramInvAt t).fetch.discard
    rw [← hcore] at hdiscard
    cases (fetchInv_of_reachable hreach).account with
    | idle _ hnone | buffered _ hnone => exact absurd hnone hu
    | waiting hf =>
      have hf' : (coreAfter (coreConfig w) R.hostedStart.sys R.coreInput t).fetch.Waiting := hf
      rw [hcore] at hf'
      exact imemReady_board (R.bramInvAt t) hf'
    | discarding hf => exact absurd hdiscard (by rw [coreAfter, hf.discard]; simp)
  dmem := by
    intro t hport
    obtain ⟨-, hcore⟩ := R.fetch_hosted t
    rw [hcore] at hport
    have hacc : dmemAcc (R.state t).sys.wrapper = true := dmemAcc_eq_isSome.trans hport
    cases hsel : dmemSelAxi w (R.state t).sys.wrapper with
    | true => exact R.axi_answered hslave hsel
    | false =>
      refine R.bram_answered ?_
      rw [dmemSelBram, hacc, hsel]
      rfl
  reachable := .init ⟨rfl, rfl⟩
  run t := by
    obtain ⟨hreach, hcore⟩ := R.fetch_hosted t
    exact ⟨trivial, board_fetchAllowed (R.bramInvAt t) (fetchInv_of_reachable hreach) hcore
      (R.running t)⟩
  running := R.running

end BoardRun

/-- **The board never hangs.** Whatever the program, the interrupts, the contents of the RAMs
and the traffic on the control bus short of a reset: as long as the slave on the peripheral
bus answers what it is offered, instructions keep leaving EX. -/
theorem board_live (R : BoardRun w) (hslave : R.PeriphAnswers) : {t | R.departs t}.Infinite := by
  have hinf := (R.answering hslave).departs_again.infinite
  refine hinf.mono fun t hfires => ?_
  obtain ⟨-, hcore⟩ := R.fetch_hosted t
  have hfires' : exFires (coreAfter (coreConfig w) R.hostedStart.sys R.coreInput t).pipe
      (R.coreInput t).dmemReady = true := hfires
  rw [hcore] at hfires'
  exact hfires'

/-- `lui x1, 0x10000`, `sw x1, 0(x1)`, and a jump to itself. -/
def storePeriph (a : BitVec 10) : Word :=
  if a = 0#10 then 0x100000b7#32 else if a = 1#10 then 0x0010a023#32 else 0x0000006f#32

/-- A slave that is ready for everything, and an interrupt line that is up all the time. -/
def readySlave : WrapperIn 32 :=
  { globalInterrupts := 1#32, mAxiPeriphAwready := true, mAxiPeriphWready := true,
    mAxiPeriphBvalid := true, mAxiPeriphArready := true, mAxiPeriphRvalid := true }

/-- The program on a board whose peripheral is always ready. -/
def periphRun : BoardRun plainBoard := programRun storePeriph readySlave ⟨rfl, rfl⟩

theorem board_live_periph : {t | periphRun.departs t}.Infinite :=
  board_live periphRun
    { aw := fun n _ => ⟨n, le_rfl, rfl⟩
      w := fun n _ => ⟨n, le_rfl, rfl⟩
      b := fun n _ => ⟨n, le_rfl, rfl⟩
      ar := fun n _ => ⟨n, le_rfl, rfl⟩
      r := fun n _ => ⟨n, le_rfl, rfl⟩ }

end RiscvV2
