import RiscvV2.RegisterTrace
import RiscvV2.UvmReports

/-!
# The checkers on the UVM top

The commit scoreboard and the flow checker on what `uvm_top` reports, against a Spike log that
shows the sequential machine. The flow checker does not mind that an instruction is reported
more than once. The commit scoreboard compares the first of the reports with the entry in the
log, and while a multicycle unit holds EX that one shows no register write: a multiplication or
division that writes a register is a mismatch, unless the test is over before the report comes
out of the delay buffer (`uvm_quiet_iff`).

Each checker is first studied on blocks of reports, with nothing said about where they come
from; then the blocks are those of `uvmTop_reports`. The last part is about the scripts of the
regression, which look at register writes only and so do not see the repetitions.
-/

namespace RiscvV2

open FlowCheck

/-! ## The commit scoreboard on blocks of reports

After the first report of an instruction its entry is gone from the window, so the others find
nothing and pass, unless the same pc comes again. -/

namespace CommitWindow

variable {w : CommitWindow} {txs : List CommitTx} {e actual first : CommitTx}
  {rest : List CommitTx}

/-- A retirement with a pc that is not expected any more passes in silence. -/
theorem Expects.checkTransaction_absent (h : w.Expects txs) (hpc : actual.pc ∉ txs.map (·.pc)) :
    (w.checkTransaction actual).Expects txs ∧ (w.checkTransaction actual).errors = w.errors := by
  have hnext := h.getNextExpected
  have hkeys := readAll_keys w.getNextExpected.expectedQ w.getNextExpected.log
  have hfind : w.getNextExpected.expectedQ.find? (·.pc == actual.pc) = none := by
    rw [List.find?_eq_none]
    intro tx htx heq
    have hkey : key tx ∈ txs.map key := by
      rw [← hnext, hkeys]
      exact List.mem_append_left _ (List.mem_map_of_mem htx)
    obtain ⟨tx', htx', heq'⟩ := List.mem_map.mp hkey
    refine hpc (List.mem_map.mpr ⟨tx', htx', ?_⟩)
    exact (congrArg Prod.fst heq').trans (beq_iff_eq.mp heq)
  have hcheck : w.checkTransaction actual = w.getNextExpected := by
    rw [checkTransaction]
    simp only [hfind]
  rw [hcheck]
  exact ⟨hnext, errors_getNextExpected⟩

theorem Expects.checkAll_absent (h : w.Expects txs) (hrest : ∀ a ∈ rest, a.pc ∉ txs.map (·.pc)) :
    (w.checkAll rest).Expects txs ∧ (w.checkAll rest).errors = w.errors := by
  induction rest generalizing w with
  | nil => exact ⟨h, rfl⟩
  | cons a rest ih =>
    obtain ⟨hfirst, herrors⟩ := h.checkTransaction_absent (hrest a List.mem_cons_self)
    obtain ⟨hall, herrors'⟩ := ih hfirst fun b hb => hrest b (List.mem_cons_of_mem _ hb)
    exact ⟨hall, herrors'.trans herrors⟩

/-- **Of the reports of one instruction the first decides.** -/
theorem Expects.checkAll_block (h : w.Expects (e :: txs)) (hfirst : first.pc = e.pc)
    (hrest : ∀ a ∈ rest, a.pc ∉ txs.map (·.pc)) :
    (w.checkAll (first :: rest)).Expects txs ∧
      (w.checkAll (first :: rest)).errors = w.errors + if first.compare e then 0 else 1 := by
  obtain ⟨hnext, herrors⟩ := h.checkTransaction_head hfirst
  obtain ⟨hall, herrors'⟩ := hnext.checkAll_absent hrest
  exact ⟨hall, herrors'.trans herrors⟩

/-- Blocks of reports, one for each of the first expected transactions. Only a transaction
whose pc does not come again is reported more than once. -/
inductive Blocks : List (List CommitTx) → List CommitTx → Prop
  | nil (txs : List CommitTx) : Blocks [] txs
  | cons {first e : CommitTx} {rest txs : List CommitTx} {bs : List (List CommitTx)} :
      first.pc = e.pc → (∀ a ∈ rest, a.pc ∉ txs.map (·.pc)) → Blocks bs txs →
      Blocks ((first :: rest) :: bs) (e :: txs)

/-- **The errors on a beginning of the blocks**: there is none if every block that has begun
begins with the expected transaction. -/
theorem Blocks.errors_take {bs : List (List CommitTx)} (hb : Blocks bs txs) (h : w.Expects txs)
    (m : ℕ) : (w.checkAll (bs.flatten.take m)).errors = w.errors ↔
      ∀ k first rest e, bs[k]? = some (first :: rest) → txs[k]? = some e →
        (bs.take k).flatten.length < m → first.compare e = true := by
  induction hb generalizing w m with
  | nil txs =>
    refine ⟨fun _ k first rest e hk => ?_, fun _ => by simp [checkAll]⟩
    simp at hk
  | @cons first e rest txs bs hfirst hrest _ ih =>
    rcases m with _ | m
    · exact ⟨fun _ k _ _ _ _ _ hm => absurd hm (Nat.not_lt_zero _), fun _ => rfl⟩
    have htake : ((first :: rest) :: bs).flatten.take (m + 1) =
        (first :: rest.take m) ++ bs.flatten.take (m - rest.length) := by
      rw [List.flatten_cons, List.take_append, List.take_succ_cons, List.length_cons,
        Nat.add_sub_add_right]
    have hcut : ∀ a ∈ rest.take m, a.pc ∉ txs.map (·.pc) :=
      fun a ha => hrest a (List.mem_of_mem_take ha)
    obtain ⟨hnext, herrors⟩ := h.checkAll_block hfirst hcut
    have hlater := ih hnext (m - rest.length)
    have hmono := (w.checkAll (first :: rest.take m)).errors_checkAll
      (bs.flatten.take (m - rest.length))
    rw [htake, checkAll, List.foldl_append, ← checkAll, ← checkAll]
    constructor
    · intro herr
      have hzero : first.compare e = true := by
        by_contra hcmp
        rw [if_neg hcmp] at herrors
        omega
      rw [if_pos hzero, Nat.add_zero] at herrors
      rintro (_ | k) first' rest' e' hk he hm
      · obtain ⟨rfl, -⟩ := List.cons.inj (Option.some.inj hk)
        obtain rfl := Option.some.inj he
        exact hzero
      · refine hlater.mp (herr.trans herrors.symm) k first' rest' e' hk he ?_
        rw [List.take_succ_cons, List.flatten_cons, List.length_append, List.length_cons] at hm
        omega
    · intro hall
      rw [if_pos (hall 0 first rest e rfl rfl (Nat.succ_pos m)), Nat.add_zero] at herrors
      rw [← herrors]
      refine hlater.mpr fun k first' rest' e' hk he hm => hall (k + 1) first' rest' e' hk he ?_
      rw [List.take_succ_cons, List.flatten_cons, List.length_append, List.length_cons]
      omega

end CommitWindow

/-! ## The flow checker on blocks of reports -/

namespace FlowCheck

variable {s : FlowCheck} {a b : Word} {rest : List Word} {r : Retirement} {rs : List Retirement}

/-- Repetitions of the last pc change nothing. -/
theorem InStep.run_repeat (h : InStep s a rest) (hrs : ∀ r ∈ rs, r.instr ≠ ecallInstr ∧ r.pc = a) :
    InStep (s.run rs) a rest ∧ (s.run rs).compared = s.compared ∧
      (s.run rs).predictor = s.predictor := by
  induction rs generalizing s with
  | nil => exact ⟨h, rfl, rfl⟩
  | cons r rs ih =>
    obtain ⟨hr, hpc⟩ := hrs r List.mem_cons_self
    obtain ⟨hstep, hin⟩ := h.step_repeat hr hpc
    obtain ⟨hin', hcompared, hpredictor⟩ := ih hin fun r' hr' => hrs r' (List.mem_cons_of_mem _ hr')
    have hsame : (s.step r).compared = s.compared ∧ (s.step r).predictor = s.predictor := by
      rw [hstep]
      exact ⟨rfl, rfl⟩
    exact ⟨hin', hcompared.trans hsame.1, hpredictor.trans hsame.2⟩

/-- **A block of reports** of the instruction that the log has next. -/
theorem InStep.run_block (h : InStep s a (b :: rest)) (hne : a ≠ b)
    (ha : s.predictor.instrMem (wordAddr a) ≠ some ecallInstr)
    (hrs : ∀ r' ∈ r :: rs, r'.instr ≠ ecallInstr ∧ r'.pc = b) :
    InStep (s.run (r :: rs)) b rest ∧
      (s.run (r :: rs)).compared = s.compared ++ [(⟨a, b⟩, ⟨a, b⟩)] ∧
      (s.run (r :: rs)).predictor.instrMem = s.predictor.instrMem := by
  obtain ⟨hr, hpc⟩ := hrs r List.mem_cons_self
  obtain ⟨-, hcompared, hin⟩ := h.step_ne hr hpc hne ha rfl
  obtain ⟨hin', hcompared', hpredictor⟩ := (hin rfl).run_repeat
    fun r' hr' => hrs r' (List.mem_cons_of_mem _ hr')
  refine ⟨hin', hcompared'.trans hcompared, ?_⟩
  exact (congrArg FlowPredictor.instrMem hpredictor).trans (instrMem_step s r)

end FlowCheck

/-! ## After the ECALL -/

namespace Checkers

variable {mem : InstrMem} {s : Checkers}

/-- The test is over for both checkers. -/
structure Done (s : Checkers) : Prop where
  commit : s.commit.ecallDetected = true
  flow : s.flow.monitor.stopped = true

/-- Nothing that retires after the ECALL changes the checkers. -/
theorem Done.run (h : s.Done) (rs : List Retirement) : s.run mem rs = s := by
  induction rs with
  | nil => rfl
  | cons r rs ih =>
    have hsample : s.flow.monitor.sample r = (s.flow.monitor, none) := by
      rw [FlowMonitor.sample, if_pos h.flow]
    have hflow := step_of_none (congrArg Prod.snd hsample)
    rw [hsample] at hflow
    have hcommit : s.commit.receive (commitTx mem r) = s.commit := by
      rw [CommitScoreboard.receive, if_pos h.commit]
    have hstep : step mem s r = s := by
      rw [step, hcommit, hflow, h.commit]
      rfl
    rw [Checkers.run, List.foldl_cons, hstep]
    exact ih

/-- The ECALL ends the test without a check. -/
theorem step_ecall {r : Retirement} (hs : s.commit.ecallDetected = false)
    (hr : r.instr = ecallInstr) (hmem : (commitTx mem r).instr = ecallInstr) :
    (step mem s r).Done ∧ ((step mem s r).Quiet ↔ s.Quiet) := by
  obtain ⟨hnone, hstopped⟩ := sample_ecall (s := s.flow) hr
  have hflow := step_of_none hnone
  have hcommit : s.commit.receive (commitTx mem r) =
      { s.commit with ecallDetected := true, actualBuffer := [] } := by
    rw [CommitScoreboard.receive, if_neg (by simp [hs]), if_pos hmem]
  have hstep : step mem s r =
      { commit := { s.commit with ecallDetected := true, actualBuffer := [] }
        flow :=
          { s.flow with
            monitor := (s.flow.monitor.sample r).1
            scoreboard := s.flow.scoreboard.testDone } } := by
    rw [step, hcommit, hflow, hs]
    rfl
  rw [hstep]
  exact ⟨⟨rfl, hstopped⟩, ⟨fun h => ⟨h.commit, h.flow⟩, fun h => ⟨h.commit, h.flow⟩⟩⟩

end Checkers

/-! ## Transactions -/

theorem CommitTx.compare_eq_true_iff {a b : CommitTx} : a.compare b = true ↔ a = b := by
  rw [CommitTx.compare, Bool.and_eq_true, decide_eq_true_eq]
  refine ⟨fun h => h.1, fun h => ⟨h, ?_⟩⟩
  rw [h, CommitTx.doCompare]
  split_ifs
  · rfl
  · simp

open Regression (entryWrite)

theorem SpikeEntry.tx_eq (e : SpikeEntry) :
    e.tx = match entryWrite e with
      | some w => ⟨e.pc, e.instr, true, w.rd, w.data⟩
      | none => { pc := e.pc, instr := e.instr } := by
  rcases e with ⟨pc, instr, _ | _ | ⟨rd, data⟩⟩ <;> rfl

/-- The entry of a log shows the next instruction: its pc, its word and its register write. -/
structure SpikeEntry.Shows (c : Config) (imem : Word → Word) (e : SpikeEntry) (s : Seq) :
    Prop where
  pc : e.pc = s.pc
  instr : e.instr = imem s.pc
  write : entryWrite e = (s.effect c imem).regWrite

section transactions

variable {c : Config} {imem : Word → Word} {mem : InstrMem} {e : SpikeEntry} {s : Seq}
  (hmem : ∀ pc w, mem (wordAddr pc) = some w → imem pc = w)

include hmem

theorem getD_program (pc : Word) : (mem (wordAddr pc)).getD (imem pc) = imem pc := by
  cases hw : mem (wordAddr pc) with
  | none => rfl
  | some w => exact (hmem pc w hw).symm

theorem commitTx_held : commitTx mem (s.heldReport imem) = { pc := s.pc, instr := imem s.pc } := by
  simp [commitTx, Seq.heldReport, getD_program hmem]

/-- **The report of an instruction is the transaction of its entry.** -/
theorem SpikeEntry.Shows.commitTx_report (h : e.Shows c imem s) :
    commitTx mem (s.report c imem) = e.tx := by
  have hwrites := s.shownWrite_filter c imem
  rw [← h.write] at hwrites
  rw [e.tx_eq, h.pc, h.instr]
  cases hshown : s.shownWrite c imem with
  | none =>
    rw [hshown] at hwrites
    have hnone : entryWrite e = none := Option.toList_eq_nil_iff.mp hwrites.symm
    simp [hnone, commitTx, Seq.report, hshown, getD_program hmem]
  | some w =>
    rw [hshown] at hwrites
    by_cases hrd : w.rd = 0#5
    · have hnone : entryWrite e = none := by
        refine Option.toList_eq_nil_iff.mp (hwrites.symm.trans ?_)
        simp [hrd]
      simp [hnone, commitTx, Seq.report, hshown, getD_program hmem, hrd]
    · have hsome : entryWrite e = some w := by
        have hlist : (entryWrite e).toList = [w] := hwrites.symm.trans (by simp [hrd])
        exact Option.toList_eq_singleton_iff.mp hlist
      simp [hsome, commitTx, Seq.report, hshown, getD_program hmem, hrd]

end transactions

/-! ## The log of a run

`LogShows` ties the log to the sequential machine, entry by entry, up to the ECALL. What is
needed of the ECALL itself is that it is reported, and once. -/

/-- What precedes the ECALL, and the ECALL. -/
theorem split_at_ecall {es : List SpikeEntry} (h : ∃ e ∈ es, e.instr = ecallInstr) :
    ∃ e post, es = spikeBeforeEcall es ++ e :: post ∧ e.instr = ecallInstr := by
  have hsplit : spikeBeforeEcall es ++ es.dropWhile (·.instr != ecallInstr) = es :=
    List.takeWhile_append_dropWhile
  rcases hrest : es.dropWhile (·.instr != ecallInstr) with _ | ⟨e, post⟩
  · obtain ⟨e, he, hecall⟩ := h
    have hall := List.dropWhile_eq_nil_iff.mp hrest e he
    simp [hecall] at hall
  · have hhead := List.head_dropWhile_not (·.instr != ecallInstr) (l := es) (by simp [hrest])
    rw [hrest] at hsplit
    exact ⟨e, post, hsplit.symm, by simpa [hrest] using hhead⟩

/-- The log shows what the sequential machine does, up to an ECALL. -/
structure TopRun.LogShows (R : TopRun) (es : List SpikeEntry) : Prop where
  entry : ∀ k e, es[k]? = some e → k ≤ (spikeBeforeEcall es).length →
    e.Shows cpuTopConfig R.program (R.machine k)
  ends : ∃ e ∈ es, e.instr = ecallInstr

/-- The next instruction is one of the multiplier or the divider. -/
def Seq.usesUnit (imem : Word → Word) (s : Seq) : Bool :=
  (riscvDecode (imem s.pc)).ctrl.isMulDiv

theorem Seq.exLatency_eq_zero_iff {imem : Word → Word} {s : Seq} :
    s.exLatency imem = 0 ↔ s.usesUnit imem = false := by
  have hpos := divLatency_pos (riscvDecode (imem s.pc)).ctrl.aluOp
    (s.regs (riscvDecode (imem s.pc)).ctrl.rs1) (s.regs (riscvDecode (imem s.pc)).ctrl.rs2)
  rw [Seq.exLatency, Seq.usesUnit, Ctrl.isMulDiv]
  split_ifs with hmul hdiv
  · simp [hmul]
  · simp only [hdiv, Bool.or_true, Bool.true_eq_false, iff_false]
    omega
  · simp [hmul, hdiv]

/-- The first report of an instruction, and the others. -/
theorem Seq.reports_eq (c : Config) (imem : Word → Word) (s : Seq) :
    ∃ rest, s.reports c imem =
      (if s.usesUnit imem then s.heldReport imem else s.report c imem) :: rest ∧
        (s.usesUnit imem = false → rest = []) := by
  rw [Seq.reports]
  rcases hlat : s.exLatency imem with _ | n
  · have huse := Seq.exLatency_eq_zero_iff.mp hlat
    exact ⟨[], by rw [huse]; rfl, fun _ => rfl⟩
  · have huse : s.usesUnit imem = true := by
      by_contra hne
      rw [Seq.exLatency_eq_zero_iff.mpr (Bool.eq_false_iff.mpr hne)] at hlat
      cases hlat
    exact ⟨_, by rw [huse]; rfl, fun h => by rw [huse] at h; cases h⟩

/-- All reports of an instruction have its pc and its word. -/
theorem Seq.mem_reports {c : Config} {imem : Word → Word} {s : Seq} {r : Retirement}
    (h : r ∈ s.reports c imem) : r.pc = s.pc ∧ r.instr = imem s.pc := by
  rw [Seq.reports, List.mem_append, List.mem_replicate, List.mem_singleton] at h
  obtain ⟨-, rfl⟩ | rfl := h
  · exact ⟨rfl, rfl⟩
  · exact ⟨rfl, rfl⟩

namespace TopRun.LogShows

variable {R : TopRun} {es : List SpikeEntry} {mem : InstrMem} (hl : R.LogShows es) {k : ℕ}

include hl

/-- The entry of instruction number `k`. -/
theorem entryAt (hk : k ≤ (spikeBeforeEcall es).length) :
    ∃ e, es.drop k = e :: es.drop (k + 1) ∧ es[k]? = some e ∧
      e.Shows cpuTopConfig R.program (R.machine k) := by
  obtain ⟨e, post, hsplit, -⟩ := split_at_ecall hl.ends
  have hlt : k < es.length := by
    rw [hsplit, List.length_append, List.length_cons]
    omega
  have hat : es[k]? = some es[k] := List.getElem?_eq_getElem hlt
  exact ⟨es[k], List.drop_eq_getElem_cons hlt, hat, hl.entry k _ hat hk⟩

theorem before_eq (hk : k < (spikeBeforeEcall es).length) :
    (spikeBeforeEcall es)[k]? = es[k]? := by
  obtain ⟨e, post, hsplit, -⟩ := split_at_ecall hl.ends
  have hat := congrArg (·[k]?) hsplit
  rw [List.getElem?_append_left hk] at hat
  exact hat.symm

theorem mem_before (hk : k < (spikeBeforeEcall es).length) {e : SpikeEntry}
    (he : es[k]? = some e) : e ∈ spikeBeforeEcall es := by
  rw [← hl.before_eq hk] at he
  exact List.mem_of_getElem? he

/-- Before the ECALL there is none. -/
theorem ne_ecall (hk : k < (spikeBeforeEcall es).length) :
    R.program (R.machine k).pc ≠ ecallInstr := by
  obtain ⟨e, -, he, hshows⟩ := hl.entryAt hk.le
  have hbefore : (e.instr != ecallInstr) = true :=
    List.mem_takeWhile_imp (p := fun e : SpikeEntry => e.instr != ecallInstr)
      (hl.mem_before hk he)
  rw [← hshows.instr]
  simpa using hbefore

/-- The instruction behind them is the ECALL. -/
theorem eq_ecall : R.program (R.machine (spikeBeforeEcall es).length).pc = ecallInstr := by
  obtain ⟨e, post, hsplit, hecall⟩ := split_at_ecall hl.ends
  have he := congrArg (·[(spikeBeforeEcall es).length]?) hsplit
  rw [List.getElem?_append_right le_rfl, Nat.sub_self] at he
  rw [← (hl.entry _ e he le_rfl).instr, hecall]

/-- It is reported once. -/
theorem block_ecall : R.block (spikeBeforeEcall es).length =
    [(R.machine (spikeBeforeEcall es).length).report cpuTopConfig R.program] := by
  have huse : (R.machine (spikeBeforeEcall es).length).usesUnit R.program = false := by
    rw [Seq.usesUnit, hl.eq_ecall]
    decide
  obtain ⟨rest, hreports, hrest⟩ :=
    Seq.reports_eq cpuTopConfig R.program (R.machine (spikeBeforeEcall es).length)
  rw [block, hreports, huse, hrest huse, if_neg Bool.false_ne_true]

/-- The first entry is that of the first instruction of the test. -/
theorem head_pc : (es.map (·.pc)).head? = some startPc := by
  obtain ⟨e, hdrop, -, hshows⟩ := hl.entryAt (Nat.zero_le _)
  rw [List.drop_zero] at hdrop
  rw [hdrop, List.map_cons, hshows.pc]
  rfl

section memoryFile

variable (hmem : ∀ pc w, mem (wordAddr pc) = some w → R.program pc = w)

include hmem

/-- The memory file has no ECALL where the program has none. -/
theorem mem_ne_ecall (hk : k < (spikeBeforeEcall es).length) :
    mem (wordAddr (R.machine k).pc) ≠ some ecallInstr :=
  fun hw => hl.ne_ecall hk (hmem _ _ hw)

/-- Neither monitor takes a report before the ECALL for one. -/
theorem mem_block (hk : k < (spikeBeforeEcall es).length) {r : Retirement} (hr : r ∈ R.block k) :
    r.instr ≠ ecallInstr ∧ (commitTx mem r).instr ≠ ecallInstr := by
  obtain ⟨hpc, hinstr⟩ := Seq.mem_reports hr
  have htx : (commitTx mem r).instr = r.instr := by
    rw [commitTx, hpc, hinstr]
    exact getD_program hmem _
  rw [htx, hinstr]
  exact ⟨hl.ne_ecall hk, hl.ne_ecall hk⟩

theorem mem_blocks {r : Retirement}
    (hr : r ∈ (List.range (spikeBeforeEcall es).length).flatMap R.block) :
    r.instr ≠ ecallInstr ∧ (commitTx mem r).instr ≠ ecallInstr := by
  obtain ⟨k, hk, hr⟩ := List.mem_flatMap.mp hr
  exact hl.mem_block hmem (List.mem_range.mp hk) hr

/-! ### The commit scoreboard

Of the reports before the ECALL all but the last twenty are checked, and each block by its first
report. -/

omit hmem in
/-- Before the ECALL the reports are blocks of the log: the pc of an instruction that is
reported more than once does not come again. -/
theorem blocks (honce : ∀ e ∈ spikeBeforeEcall es,
      (riscvDecode e.instr).ctrl.isMulDiv = true → (es.map (·.pc)).count e.pc = 1)
    (n m : ℕ) (hn : m + n ≤ (spikeBeforeEcall es).length) :
    CommitWindow.Blocks ((List.range' m n).map fun k => (R.block k).map (commitTx mem))
      ((es.drop m).map SpikeEntry.tx) := by
  induction n generalizing m with
  | zero => exact .nil _
  | succ n ih =>
    obtain ⟨e, hdrop, he, hshows⟩ := hl.entryAt (k := m) (by omega)
    obtain ⟨rest, hreports, hrest⟩ := Seq.reports_eq cpuTopConfig R.program (R.machine m)
    have hpcs : ∀ r ∈ rest, r.pc = e.pc := by
      intro r hr
      have hmem' : r ∈ (R.machine m).reports cpuTopConfig R.program := by
        rw [hreports]
        exact List.mem_cons_of_mem _ hr
      rw [hshows.pc]
      exact (Seq.mem_reports hmem').1
    have hpc := congrArg Prod.fst (key_tx e)
    rw [List.range'_succ, List.map_cons, hdrop, List.map_cons, TopRun.block, hreports,
      List.map_cons]
    refine .cons ?_ ?_ (ih (m + 1) (by omega))
    · refine Eq.trans ?_ (hshows.pc.symm.trans hpc.symm)
      split <;> rfl
    · intro tx htx hmem'
      obtain ⟨r, hr, rfl⟩ := List.mem_map.mp htx
      have huse : (R.machine m).usesUnit R.program = true := by
        by_contra huse
        rw [hrest (Bool.eq_false_iff.mpr huse)] at hr
        cases hr
      have hone := honce e (hl.mem_before (by omega) he) (by rw [hshows.instr]; exact huse)
      have hagain : e.pc ∈ (es.drop (m + 1)).map (·.pc) := by
        rw [← pcs_entries, ← hpcs r hr]
        exact hmem'
      rw [← List.take_append_drop m es, hdrop, List.map_append, List.map_cons, List.count_append,
        List.count_cons_self] at hone
      have := List.count_pos_iff.mpr hagain
      omega

omit hl hmem in
theorem flatten_blocks (l : List ℕ) : (l.map fun k => (R.block k).map (commitTx mem)).flatten =
    (l.flatMap R.block).map (commitTx mem) := by
  rw [List.map_flatMap, List.flatMap]

omit hl hmem in
/-- Lines of boot code are skipped. -/
theorem start_boot {boot : List SpikeEntry} (hboot : startPc ∉ boot.map (·.pc)) :
    CommitWindow.start (spikeLog (boot ++ es)) = CommitWindow.start (spikeLog es) := by
  have hskip : ∀ line ∈ spikeLog boot, (line.pc? != some startPc) = true := by
    intro line hline
    obtain ⟨e, he, hline⟩ := List.mem_flatMap.mp hline
    have hpc : line.pc? = some e.pc := by
      rcases e with ⟨pc, instr, _ | gpr⟩
      · obtain rfl : line = _ := by simpa [SpikeEntry.lines] using hline
        rfl
      · obtain rfl | rfl : line = _ ∨ line = _ := by simpa [SpikeEntry.lines] using hline
        · rfl
        · rfl
    rw [hpc, bne_iff_ne]
    rintro heq
    exact hboot (Option.some.inj heq ▸ List.mem_map_of_mem he)
  have hsplit : spikeLog (boot ++ es) = spikeLog boot ++ spikeLog es := List.flatMap_append
  rw [CommitWindow.start, CommitWindow.start, hsplit, List.dropWhile_append_of_pos hskip]

/-- The first transaction of a block is the one in the log, but for the write that it does not
show while the instruction is held. -/
theorem first_compare (hk : k < (spikeBeforeEcall es).length) {first : CommitTx}
    {rest : List CommitTx} (hblock : (R.block k).map (commitTx mem) = first :: rest)
    {e : SpikeEntry} (he : es[k]? = some e) :
    first.compare e.tx = true ↔ ¬ ((R.machine k).usesUnit R.program = true ∧
      ((R.machine k).effect cpuTopConfig R.program).regWrite.isSome = true) := by
  have hshows := hl.entry k e he hk.le
  obtain ⟨rest', hreports, -⟩ := Seq.reports_eq cpuTopConfig R.program (R.machine k)
  rw [block, hreports, List.map_cons] at hblock
  obtain ⟨rfl, -⟩ := List.cons.inj hblock
  rw [CommitTx.compare_eq_true_iff]
  cases huse : (R.machine k).usesUnit R.program with
  | false =>
    rw [if_neg Bool.false_ne_true, hshows.commitTx_report hmem]
    simp
  | true =>
    rw [if_pos rfl, commitTx_held hmem, e.tx_eq, hshows.write, hshows.pc, hshows.instr]
    cases ((R.machine k).effect cpuTopConfig R.program).regWrite with
    | none => simp
    | some w => simp

/-- **The commit scoreboard on the reports before the ECALL.** -/
theorem errors_iff {boot : List SpikeEntry} (hboot : startPc ∉ boot.map (·.pc))
    (honce : ∀ e ∈ spikeBeforeEcall es,
      (riscvDecode e.instr).ctrl.isMulDiv = true → (es.map (·.pc)).count e.pc = 1) :
    ((CommitWindow.start (spikeLog (boot ++ es))).checkAll (checkedTxs mem
      ((List.range (spikeBeforeEcall es).length).flatMap R.block))).errors = 0 ↔
      ∀ k < (spikeBeforeEcall es).length, (R.machine k).usesUnit R.program = true →
        ((R.machine k).effect cpuTopConfig R.program).regWrite.isSome = true →
          (((List.range (spikeBeforeEcall es).length).drop k).flatMap R.block).length ≤ 20 := by
  have hblocks : CommitWindow.Blocks ((List.range' 0 (spikeBeforeEcall es).length).map fun k =>
      (R.block k).map (commitTx mem)) _ := hl.blocks honce _ 0 (by omega)
  rw [List.drop_zero, ← List.range_eq_range'] at hblocks
  have herrors := hblocks.errors_take (start_expects hl.head_pc)
    (((List.range (spikeBeforeEcall es).length).flatMap R.block).length - 20)
  rw [(start_blank _).2, flatten_blocks] at herrors
  rw [start_boot hboot, checkedTxs, herrors]
  have hsplit : ∀ k, (((List.range (spikeBeforeEcall es).length).flatMap R.block)).length =
      (((List.range (spikeBeforeEcall es).length).take k).flatMap R.block).length +
        (((List.range (spikeBeforeEcall es).length).drop k).flatMap R.block).length := by
    intro k
    rw [← List.length_append, ← List.flatMap_append, List.take_append_drop]
  have htake : ∀ k, (((List.range (spikeBeforeEcall es).length).map fun k =>
      (R.block k).map (commitTx mem)).take k).flatten.length =
        (((List.range (spikeBeforeEcall es).length).take k).flatMap R.block).length := by
    intro k
    rw [← List.map_take, flatten_blocks, List.length_map]
  constructor
  · intro hall k hk huse hwrite
    by_contra hlong
    obtain ⟨e, -, he, -⟩ := hl.entryAt hk.le
    obtain ⟨rest, hreports, -⟩ := Seq.reports_eq cpuTopConfig R.program (R.machine k)
    obtain ⟨first, rest', hblock⟩ : ∃ first rest', (R.block k).map (commitTx mem) =
        first :: rest' := ⟨_, _, by rw [block, hreports, List.map_cons]⟩
    have hb : ((List.range (spikeBeforeEcall es).length).map fun k =>
        (R.block k).map (commitTx mem))[k]? = some (first :: rest') := by
      rw [List.getElem?_map, List.getElem?_range hk, ← hblock]
      rfl
    have hchecked : (((List.range (spikeBeforeEcall es).length).take k).flatMap R.block).length <
        ((List.range (spikeBeforeEcall es).length).flatMap R.block).length - 20 := by
      rw [hsplit k]
      omega
    rw [← htake] at hchecked
    have hfirst := hall k first rest' e.tx hb (by rw [List.getElem?_map, he]; rfl) hchecked
    exact (hl.first_compare hmem hk hblock he).mp hfirst ⟨huse, hwrite⟩
  · intro hshort k first rest tx hb htx hm
    have hk : k < (spikeBeforeEcall es).length := by
      have hlt := (List.getElem?_eq_some_iff.mp hb).1
      simpa using hlt
    obtain ⟨e, -, he, -⟩ := hl.entryAt hk.le
    rw [List.getElem?_map, he] at htx
    rw [List.getElem?_map, List.getElem?_range hk] at hb
    obtain rfl : e.tx = tx := Option.some.inj htx
    refine (hl.first_compare hmem hk (Option.some.inj hb) he).mpr ?_
    rintro ⟨huse, hwrite⟩
    have := hshort k hk huse hwrite
    rw [htake, hsplit k] at hm
    omega

/-! ### The flow checker

The pcs of a block are one pc, and the flow monitor drops its repetitions. -/

/-- The pcs of the log, one block of reports for each. -/
theorem flow_blocks (hmoves : ((spikeBeforeEcall es).map (·.pc)).IsChain (· ≠ ·)) (n k : ℕ)
    (hk : k + 1 + n ≤ (spikeBeforeEcall es).length) {s : FlowCheck}
    (hin : InStep s (R.machine k).pc ((es.drop (k + 1)).map (·.pc)))
    (hpredictor : s.predictor.instrMem = mem) (hclean : ∀ p ∈ s.compared, p.1 = p.2) :
    ∀ p ∈ (s.run ((List.range' (k + 1) n).flatMap R.block)).compared, p.1 = p.2 := by
  induction n generalizing k s with
  | zero => exact hclean
  | succ n ih =>
    obtain ⟨e, hdrop, he, hshows⟩ := hl.entryAt (k := k + 1) (by omega)
    obtain ⟨e', -, he', hshows'⟩ := hl.entryAt (k := k) (by omega)
    obtain ⟨rest, hreports, -⟩ := Seq.reports_eq cpuTopConfig R.program (R.machine (k + 1))
    have hne : (R.machine k).pc ≠ (R.machine (k + 1)).pc := by
      have hpair := List.isChain_iff_getElem.mp hmoves k (by simp; omega)
      rw [← hl.before_eq (by omega), List.getElem?_eq_some_iff] at he he'
      obtain ⟨_, he⟩ := he
      obtain ⟨_, he'⟩ := he'
      rwa [List.getElem_map, List.getElem_map, he, he', hshows.pc, hshows'.pc] at hpair
    rw [hdrop, List.map_cons, hshows.pc] at hin
    have hblock : ∀ r ∈ R.block (k + 1), r.instr ≠ ecallInstr ∧ r.pc = (R.machine (k + 1)).pc :=
      fun r hr => ⟨(hl.mem_block hmem (by omega) hr).1, (Seq.mem_reports hr).1⟩
    have hecall : s.predictor.instrMem (wordAddr (R.machine k).pc) ≠ some ecallInstr := by
      rw [hpredictor]
      exact hl.mem_ne_ecall hmem (by omega)
    rw [List.range'_succ, List.flatMap_cons, FlowCheck.run, List.foldl_append, ← FlowCheck.run,
      ← FlowCheck.run]
    rw [block, hreports] at hblock ⊢
    obtain ⟨hin', hcompared, hpredictor'⟩ := hin.run_block hne hecall hblock
    refine ih (k + 1) (by omega) hin' (hpredictor'.trans hpredictor) ?_
    rw [hcompared]
    intro p hp
    obtain hp | hp := List.mem_append.mp hp
    · exact hclean p hp
    · rw [List.mem_singleton.mp hp]

/-- **The flow checker raises no alarm on the reports before the ECALL.** -/
theorem flow_clean {boot : List SpikeEntry} (hboot : startPc ∉ boot.map (·.pc))
    (hmoves : ((spikeBeforeEcall es).map (·.pc)).IsChain (· ≠ ·)) :
    ∀ p ∈ ((FlowCheck.start mem ((boot ++ es).map (·.pc))).run
      ((List.range (spikeBeforeEcall es).length).flatMap R.block)).compared, p.1 = p.2 := by
  rcases hN : (spikeBeforeEcall es).length with _ | m
  · intro p hp
    cases hp
  obtain ⟨e, hdrop, -, hshows⟩ := hl.entryAt (Nat.zero_le _)
  have hpcs : (boot ++ es).map (·.pc) = boot.map (·.pc) ++ startPc :: (es.drop 1).map (·.pc) := by
    rw [List.drop_zero] at hdrop
    rw [List.map_append]
    congr 1
    conv_lhs => rw [hdrop, List.map_cons, hshows.pc]
    rfl
  have hstart := @inStep_start mem _ ((es.drop 1).map (·.pc)) hboot
  rw [← hpcs] at hstart
  -- the first instruction has the pc that the monitor starts with
  have hfirst : ∀ r ∈ R.block 0, r.instr ≠ ecallInstr ∧ r.pc = startPc :=
    fun r hr => ⟨(hl.mem_block hmem (by omega) hr).1, (Seq.mem_reports hr).1⟩
  obtain ⟨hin, hcompared, hpredictor⟩ := hstart.run_repeat hfirst
  rw [List.range_eq_range', List.range'_succ, List.flatMap_cons, FlowCheck.run, List.foldl_append,
    ← FlowCheck.run, ← FlowCheck.run]
  refine hl.flow_blocks hmem hmoves m 0 (by omega) hin (by rw [hpredictor]; rfl) ?_
  rw [hcompared]
  intro p hp
  cases hp

/-! ### Both checkers -/

variable {boot : List SpikeEntry} (hboot : startPc ∉ boot.map (·.pc))

include hboot

/-- The checkers at the ECALL. -/
theorem quiet_before_iff (hmoves : ((spikeBeforeEcall es).map (·.pc)).IsChain (· ≠ ·)) :
    ((Checkers.start mem (spikeLog (boot ++ es))).run mem
        ((List.range (spikeBeforeEcall es).length).flatMap R.block)).Quiet ↔
      ((CommitWindow.start (spikeLog (boot ++ es))).checkAll (checkedTxs mem
        ((List.range (spikeBeforeEcall es).length).flatMap R.block))).errors = 0 := by
  rw [← window_run fun r hr => hl.mem_blocks hmem hr]
  refine ⟨fun hquiet => hquiet.commit, fun herrors => ⟨herrors, ?_⟩⟩
  rw [flow_run fun r hr => hl.mem_blocks hmem hr]
  exact hl.flow_clean hmem hboot hmoves

omit hboot in
/-- The block of the ECALL and everything behind it leave the checkers as they are. -/
theorem quiet_after {log : List LogLine} (rs : List Retirement)
    (h : ((Checkers.start mem log).run mem
      ((List.range (spikeBeforeEcall es).length).flatMap R.block)).Quiet) :
    ((Checkers.start mem log).run mem
      ((List.range (spikeBeforeEcall es).length).flatMap R.block ++
        (R.block (spikeBeforeEcall es).length ++ rs))).Quiet := by
  have hps : ∀ r ∈ (List.range (spikeBeforeEcall es).length).flatMap R.block,
      (commitTx mem r).instr ≠ ecallInstr := fun r hr => (hl.mem_blocks hmem hr).2
  have hactive : ((Checkers.start mem log).run mem
      ((List.range (spikeBeforeEcall es).length).flatMap R.block)).commit.ecallDetected =
        false := by
    rw [Checkers.run_before_ecall rfl hps]
    refine congrArg CommitScoreboard.ecallDetected (receive_run _ _ fun tx htx => ?_)
    obtain ⟨r, hr, rfl⟩ := List.mem_map.mp htx
    exact hps r hr
  have htx : (commitTx mem
      ((R.machine (spikeBeforeEcall es).length).report cpuTopConfig R.program)).instr =
        ecallInstr := (getD_program hmem _).trans hl.eq_ecall
  obtain ⟨hdone, hquiet⟩ := Checkers.step_ecall hactive hl.eq_ecall htx
  rw [Checkers.run, List.foldl_append, List.foldl_append, ← Checkers.run, ← Checkers.run,
    ← Checkers.run, hl.block_ecall]
  change (Checkers.run mem (Checkers.step mem _ _) rs).Quiet
  rw [hdone.run]
  exact hquiet.mpr h

end memoryFile

end TopRun.LogShows

/-- `instr_mem` of the monitors, read from the memory file. -/
def fileMem (file : List Word) : InstrMem := fun a => file[a.toNat]?

/-- The monitors and the instruction memory have the same words. -/
theorem TopRun.program_of_fileMem (R : TopRun) (pc w : Word)
    (h : fileMem R.file (wordAddr pc) = some w) : R.program pc = w := by
  have hlt : (wordAddr pc).toNat < R.file.length := by
    by_contra hge
    rw [fileMem, List.getElem?_eq_none (Nat.le_of_not_lt hge)] at h
    cases h
  have hindex : (wordAddr pc).toNat < 16384 := hlt.trans_le R.file_le
  have hword : ((wordAddr pc).setWidth 14).toNat = (wordAddr pc).toNat := by
    rw [BitVec.toNat_setWidth]
    exact Nat.mod_eq_of_lt hindex
  have hmemory : R.program pc = loadMemory R.file ((wordAddr pc).setWidth 14) := if_pos hindex
  rw [fileMem] at h
  rw [hmemory, loadMemory, hword, List.getD_eq_getElem?_getD, h]
  rfl

/-- **When the test bench raises an alarm on a correct core.** The memory file goes to the
instruction memory and to both monitors, the data memory is kept to its range, the Spike log,
behind its boot code, shows the sequential machine, no instruction jumps to itself, and no
multiplication or division is executed twice. Then the flow checker and the commit scoreboard
report no error in any cycle of the test if and only if for each multiplication or division
that writes a register there are at most twenty reports from its own first one to the ECALL. -/
theorem uvm_quiet_iff (R : TopRun) (hmemory : R.StaysInMemory) {boot es : List SpikeEntry}
    (hboot : startPc ∉ boot.map (·.pc)) (hl : R.LogShows es)
    (hmoves : ((spikeBeforeEcall es).map (·.pc)).IsChain (· ≠ ·))
    (honce : ∀ e ∈ spikeBeforeEcall es,
      (riscvDecode e.instr).ctrl.isMulDiv = true → (es.map (·.pc)).count e.pc = 1) :
    (∀ t, ((Checkers.start (fileMem R.file) (spikeLog (boot ++ es))).run (fileMem R.file)
      (R.reports t)).Quiet) ↔
      ∀ k < (spikeBeforeEcall es).length, (R.machine k).usesUnit R.program = true →
        ((R.machine k).effect cpuTopConfig R.program).regWrite.isSome = true →
          (((List.range (spikeBeforeEcall es).length).drop k).flatMap R.block).length ≤ 20 := by
  have hmem := R.program_of_fileMem
  rw [← hl.errors_iff hmem hboot honce, ← hl.quiet_before_iff hmem hboot hmoves]
  constructor
  · intro hquiet
    obtain ⟨t, ht⟩ := TopRun.reports_complete hmemory (spikeBeforeEcall es).length
    rw [← ht]
    exact hquiet t
  · intro hquiet t
    -- all reports so far are among those of the blocks up to the ECALL and behind it
    obtain ⟨later, rs, hsplit⟩ := TopRun.reports_split hmemory (spikeBeforeEcall es).length t
    have hall := hl.quiet_after hmem rs hquiet
    rw [← hsplit, Checkers.run, List.foldl_append] at hall
    exact Checkers.quiet_of_run hall

/-- The Spike log of `squareRun`. -/
def squareLog : List SpikeEntry :=
  [⟨0x80000000#32, 0x00700093#32, some (some (1#5, 7#32))⟩,
    ⟨0x80000004#32, 0x02108133#32, some (some (2#5, 49#32))⟩,
    ⟨0x80000008#32, ecallInstr, none⟩]

theorem squareRun_logShows : squareRun.LogShows squareLog where
  entry k e he hk := by
    have hall : ∀ k < 3, ∀ e ∈ squareLog[k]?, e.pc = (squareRun.machine k).pc ∧
        e.instr = squareRun.program (squareRun.machine k).pc ∧
        entryWrite e =
          ((squareRun.machine k).effect cpuTopConfig squareRun.program).regWrite := by decide
    have hlength : (spikeBeforeEcall squareLog).length = 2 := by decide
    obtain ⟨hpc, hinstr, hwrite⟩ := hall k (by omega) e he
    exact ⟨hpc, hinstr, hwrite⟩
  ends := by decide

/-- There is a multiplication, but the test is over before its reports are checked. -/
theorem uvm_quiet_iff_square :
    (∃ k < (spikeBeforeEcall squareLog).length,
      (squareRun.machine k).usesUnit squareRun.program = true) ∧
    ∀ t, ((Checkers.start (fileMem squareRun.file)
      (spikeLog ([Regression.bootJump] ++ squareLog))).run (fileMem squareRun.file)
        (squareRun.reports t)).Quiet := by
  refine ⟨⟨1, by decide, by decide⟩, ?_⟩
  refine (uvm_quiet_iff squareRun squareRun_staysInMemory (by decide) squareRun_logShows
    (by decide) (by decide)).mpr ?_
  decide

/-! ## The trace comparison -/

section traces

open Regression

variable {R : TopRun} {es : List SpikeEntry}

/-- The repetitions show no write. -/
theorem Seq.filterMap_reports (c : Config) (imem : Word → Word) (s : Seq) :
    ((s.reports c imem).filterMap (·.write)).filter (·.rd ≠ 0#5) =
      (s.effect c imem).regWrite.toList := by
  have hheld : (List.replicate (s.exLatency imem) (s.heldReport imem)).filterMap (·.write) = [] :=
    List.filterMap_eq_nil_iff.mpr fun r hr => by rw [List.eq_of_mem_replicate hr]; rfl
  have hlast : [s.report c imem].filterMap (·.write) = (s.shownWrite c imem).toList := by
    rw [List.filterMap_cons, Seq.report]
    cases s.shownWrite c imem <;> rfl
  rw [Seq.reports, List.filterMap_append, hheld, hlast, List.nil_append, s.shownWrite_filter]

/-- **The register writes in the reports** are those of the sequential machine. -/
theorem TopRun.writes_blocks (R : TopRun) (k : ℕ) :
    (((List.range k).flatMap R.block).filterMap (·.write)).filter (·.rd ≠ 0#5) =
      (R.machine k).regWrites := by
  rw [TopRun.machine, (seqRun_writes cpuTopConfig R.program R.data k).1]
  induction List.range k with
  | nil => rfl
  | cons j l ih =>
    rw [List.flatMap_cons, List.filterMap_append, List.filter_append, ih, List.map_cons,
      List.flatten_cons, TopRun.block, Seq.filterMap_reports]
    rfl

/-- The test begins in the program. -/
theorem TopRun.dropWhile_blocks (R : TopRun) (k : ℕ) :
    ((List.range k).flatMap R.block).dropWhile (·.pc.toNat < 0x80000000) =
      (List.range k).flatMap R.block := by
  rcases k with _ | k
  · rfl
  · obtain ⟨rest, hreports, -⟩ := Seq.reports_eq cpuTopConfig R.program (R.machine 0)
    have hpc : ∀ r ∈ R.block 0, r.pc = 0x80000000#32 := fun r hr => (Seq.mem_reports hr).1
    rw [TopRun.block, hreports] at hpc
    rw [List.range_eq_range', List.range'_succ, List.flatMap_cons, TopRun.block, hreports,
      List.cons_append, List.dropWhile_cons_of_neg]
    rw [hpc _ List.mem_cons_self]
    decide

/-- The log has the same ones. -/
theorem TopRun.LogShows.spikeWrites_eq (hl : R.LogShows es) :
    spikeWrites es = (R.machine (spikeBeforeEcall es).length).regWrites := by
  have hentries : (spikeBeforeEcall es).map entryWrite =
      (List.range (spikeBeforeEcall es).length).map fun k =>
        ((R.machine k).effect cpuTopConfig R.program).regWrite := by
    refine List.ext_getElem? fun k => ?_
    rcases Nat.lt_or_ge k (spikeBeforeEcall es).length with hk | hk
    · obtain ⟨e, -, he, hshows⟩ := hl.entryAt hk.le
      rw [List.getElem?_map, List.getElem?_map, hl.before_eq hk, he, List.getElem?_range hk,
        Option.map_some, Option.map_some, hshows.write]
    · rw [List.getElem?_eq_none (by simpa using hk), List.getElem?_eq_none (by simpa using hk)]
  rw [spikeWrites, hentries, TopRun.machine, (seqRun_writes cpuTopConfig R.program R.data _).1,
    reduceOption_eq_flatten, List.map_map]
  rfl

/-- The reports before the ECALL, once it has been reported. -/
theorem TopRun.LogShows.reports_before (hl : R.LogShows es) (hmemory : R.StaysInMemory) {t : ℕ}
    (hecall : ∃ r ∈ R.reports t, r.instr = ecallInstr) :
    beforeEcall (R.reports t) =
      (List.range (spikeBeforeEcall es).length).flatMap R.block := by
  have hbefore : ∀ r ∈ (List.range (spikeBeforeEcall es).length).flatMap R.block,
      r.instr ≠ ecallInstr := by
    intro r hr
    obtain ⟨k, hk, hr⟩ := List.mem_flatMap.mp hr
    rw [(Seq.mem_reports hr).2]
    exact hl.ne_ecall (List.mem_range.mp hk)
  have hstop : ((R.machine (spikeBeforeEcall es).length).report cpuTopConfig R.program).instr =
      ecallInstr := hl.eq_ecall
  obtain ⟨later, rs, hsplit⟩ := TopRun.reports_split hmemory (spikeBeforeEcall es).length t
  rw [← beforeEcall_append_of_mem hecall, hsplit, beforeEcall_append hbefore, hl.block_ecall,
    List.singleton_append, beforeEcall_ecall hstop, List.append_nil]

/-- **The regression scripts raise no alarm on a correct core**, however often an instruction is
reported: if the accesses of the program stay in the half of the region that the data memory
really has, the Spike log, behind boot code that ends at `0x1010`, shows the sequential machine,
and the RTL log has the reports of `uvm_top` before its ECALL, then the seed passes. -/
theorem processSeed_uvmTop (R : TopRun) (hmemory : R.StaysInMemory) {disasm : Word → Text}
    (hdisasm : ∀ w, disasm w = "ecall".toList ↔ w = ecallInstr) (instrStr : Text → Text)
    {boot es : List SpikeEntry} {last : SpikeEntry} (hboot : ∀ e ∈ boot, e.pc ≠ 0x1010#32)
    (hlast : last.pc = 0x1010#32) (hl : R.LogShows es) {t : ℕ}
    (hecall : ∃ r ∈ R.reports t, r.instr = ecallInstr) {rtlLog : List (Option RtlMatch)}
    (hrtl : rtlLog.reduceOption = (beforeEcall (R.reports t)).map rtlMatch) :
    processSeed instrStr ((spikeLog (boot ++ last :: es)).map (spikeLine disasm)) rtlLog =
      true := by
  refine (processSeed_iff_history hdisasm instrStr hboot hlast hrtl).mpr (.inl ?_)
  rw [hl.reports_before hmemory hecall, rtlWrites, R.dropWhile_blocks, R.writes_blocks,
    hl.spikeWrites_eq]

/-- Spike's names for the words of `squareRun`. -/
def squareDisasm (w : Word) : Text :=
  (if w = ecallInstr then "ecall" else if w = 0x00700093#32 then "li ra, 7"
  else "mul sp, ra, ra").toList

theorem squareDisasm_eq_ecall_iff (w : Word) :
    squareDisasm w = "ecall".toList ↔ w = ecallInstr := by
  rw [squareDisasm]
  split_ifs with h h'
  · exact ⟨fun _ => h, fun _ => rfl⟩
  · exact ⟨fun heq => absurd heq (by decide), fun heq => absurd heq h⟩
  · exact ⟨fun heq => absurd heq (by decide), fun heq => absurd heq h⟩

/-- The multiplication stands three times in the RTL log. -/
theorem processSeed_uvmTop_square :
    processSeed (fun _ => [])
      ((spikeLog (bootJump :: squareLog)).map (spikeLine squareDisasm))
      (([⟨0x80000000#32, 0x00700093#32, some ⟨1#5, 7#32⟩⟩,
        ⟨0x80000004#32, 0x02108133#32, none⟩, ⟨0x80000004#32, 0x02108133#32, none⟩,
        ⟨0x80000004#32, 0x02108133#32, some ⟨2#5, 49#32⟩⟩] : List Retirement).map
          fun r => some (rtlMatch r)) = true := by
  obtain ⟨t, ht⟩ := TopRun.reports_complete squareRun_staysInMemory 3
  have hecall : ∃ r ∈ squareRun.reports t, r.instr = ecallInstr := by
    rw [ht]
    decide
  have hbefore : beforeEcall (squareRun.reports t) =
      [⟨0x80000000#32, 0x00700093#32, some ⟨1#5, 7#32⟩⟩, ⟨0x80000004#32, 0x02108133#32, none⟩,
        ⟨0x80000004#32, 0x02108133#32, none⟩,
        ⟨0x80000004#32, 0x02108133#32, some ⟨2#5, 49#32⟩⟩] := by
    rw [ht]
    decide
  have hboot : ∀ e ∈ ([] : List SpikeEntry), e.pc ≠ 0x1010#32 := by simp
  refine processSeed_uvmTop squareRun squareRun_staysInMemory squareDisasm_eq_ecall_iff
    (fun _ => []) hboot rfl squareRun_logShows hecall ?_
  rw [hbefore]
  rfl

end traces

end RiscvV2
