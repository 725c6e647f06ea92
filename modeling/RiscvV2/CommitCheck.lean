import RiscvV2.FlowCheck
import Mathlib.Data.List.TakeWhile

/-!
# The commit scoreboard

The commit scoreboard compares retirements with a window of the Spike log, twenty retirements
late; those still waiting when the ECALL retires are dropped. An entry is looked for by pc in
the whole window, a match discards everything before it, and a retirement that is not found
passes in silence. So agreement is only ensured together with the flow checker, which ties the
pcs to the log one by one as long as none is repeated.

The window is analysed through the whole log: `readAll` is what the queue would hold if all of
the log were read, and a check that moves the window keeps it a suffix of the same list. How
much has been read at some time then plays no part.

What two quiet checkers ensure is less than agreement, in two ways. The last retirements before
the ECALL are never compared, and a retirement that is not in the window is not an error.
-/

namespace RiscvV2

open FlowCheck Sequences

/-! ## Transactions and the Spike log

The log is a list of execution and commit lines. An entry of it is one instruction, with the
commit line behind it if there is one. -/

/-- `riscv_commit_transaction`. -/
structure CommitTx where
  pc : Word
  instr : Word
  gprWriteEnable : Bool := false
  rdAddr : BitVec 5 := 0
  rdData : Word := 0
  deriving DecidableEq, Repr

/-- `do_compare`. -/
def CommitTx.doCompare (a b : CommitTx) : Bool :=
  if a.gprWriteEnable && b.gprWriteEnable then true
  else a.pc == b.pc && a.instr == b.instr && a.gprWriteEnable == b.gprWriteEnable

/-- `compare`: every field is declared with `UVM_COMPARE`, and `do_compare` has to agree. -/
def CommitTx.compare (a b : CommitTx) : Bool := decide (a = b) && a.doCompare b

/-- `cpu_commit_monitor`: the instruction is looked up by pc, with the retired word where the
memory file has none, and a write of `x0` counts as none. -/
def commitTx (mem : InstrMem) (r : Retirement) : CommitTx :=
  let w : RegWrite := r.write.getD ⟨0, 0⟩
  { pc := r.pc
    instr := (mem (wordAddr r.pc)).getD r.instr
    gprWriteEnable := r.write.isSome && w.rd != 0
    rdAddr := w.rd
    rdData := if w.rd = 0 then 0 else w.data }

/-- The lines of a Spike log. -/
inductive LogLine
  /-- `core   0: 0x<pc> (0x<instr>)`, an execution line -/
  | exec (pc instr : Word)
  /-- `core   0: 3 0x<pc> (0x<instr>)`, with `x<rd> 0x<data>` for a register write -/
  | commit (pc instr : Word) (gpr : Option (BitVec 5 × Word))
  /-- any other line -/
  | other
  deriving DecidableEq, Repr

/-- The pc of an execution or a commit line. -/
def LogLine.pc? : LogLine → Option Word
  | .exec pc _ => some pc
  | .commit pc _ _ => some pc
  | .other => none

/-- The pc of an execution line, which the flow predictor reads. -/
def LogLine.execPc? : LogLine → Option Word
  | .exec pc _ => some pc
  | _ => none

/-- An instruction in the log: its execution line and the commit line behind it, if any. -/
structure SpikeEntry where
  pc : Word
  instr : Word
  commit : Option (Option (BitVec 5 × Word)) := none

namespace SpikeEntry

/-- The lines of the entry. -/
def lines (e : SpikeEntry) : List LogLine :=
  .exec e.pc e.instr :: (e.commit.map (LogLine.commit e.pc e.instr)).toList

/-- What the log says about the instruction. -/
def tx (e : SpikeEntry) : CommitTx :=
  match e.commit with
  | some (some (rd, data)) => ⟨e.pc, e.instr, true, rd, data⟩
  | _ => { pc := e.pc, instr := e.instr }

end SpikeEntry

/-! ## The scoreboard -/

/-- `process_spike_line_refactored` on the queue of expected transactions. -/
def processSpikeLine (q : List CommitTx) : LogLine → List CommitTx
  | .exec pc instr => q ++ [{ pc := pc, instr := instr }]
  | .commit pc _ (some (rd, data)) =>
    match q.getLast? with
    | none => q
    | some e =>
      if e.pc = pc then
        q.dropLast ++ [{ e with gprWriteEnable := true, rdAddr := rd, rdData := data }]
      else q
  | .commit _ _ none => q
  | .other => q

/-- The log is read until the queue has 500 entries. -/
def readLog (q : List CommitTx) : List LogLine → List CommitTx × List LogLine
  | [] => (q, [])
  | line :: log =>
    if q.length < 500 then readLog (processSpikeLine q line) log else (q, line :: log)

/-- The expected transactions, the unread lines of the log, and the outcome of the checks. -/
structure CommitWindow where
  expectedQ : List CommitTx
  log : List LogLine
  /-- transactions found in the window and equal to the entry there -/
  found : List CommitTx := []
  errors : ℕ := 0

namespace CommitWindow

/-- `start_of_simulation_phase`: the log from its first line with `startPc` on. -/
def start (log : List LogLine) : CommitWindow :=
  match log.dropWhile (·.pc? != some startPc) with
  | [] => ⟨[], [], [], 0⟩
  | line :: log => ⟨processSpikeLine [] line, log, [], 0⟩

/-- `get_next_expected`. -/
def getNextExpected (w : CommitWindow) : CommitWindow :=
  if w.expectedQ.length > 50 then w
  else { w with expectedQ := (readLog w.expectedQ w.log).1, log := (readLog w.expectedQ w.log).2 }

/-- `check_transaction`. -/
def checkTransaction (w : CommitWindow) (actual : CommitTx) : CommitWindow :=
  let w := w.getNextExpected
  match w.expectedQ.find? (·.pc == actual.pc) with
  | none => w
  | some expected =>
    if actual.compare expected then
      { w with
        expectedQ := w.expectedQ.drop (w.expectedQ.findIdx (·.pc == actual.pc) + 1)
        found := w.found ++ [actual] }
    else { w with expectedQ := w.expectedQ.tail, errors := w.errors + 1 }

end CommitWindow

/-- `cpu_commit_scoreboard`. -/
structure CommitScoreboard where
  actualBuffer : List CommitTx := []
  ecallDetected : Bool := false
  window : CommitWindow

/-- The loop body of `run_phase`. -/
def CommitScoreboard.receive (s : CommitScoreboard) (actual : CommitTx) : CommitScoreboard :=
  if s.ecallDetected then s
  else if actual.instr = ecallInstr then { s with ecallDetected := true, actualBuffer := [] }
  else
    match s.actualBuffer ++ [actual] with
    | [] => s
    | oldest :: buffer =>
      if buffer.length + 1 > 20 then
        { s with actualBuffer := buffer, window := s.window.checkTransaction oldest }
      else { s with actualBuffer := oldest :: buffer }

/-! ## Both checkers -/

/-- The commit scoreboard and the flow checker. -/
structure Checkers where
  commit : CommitScoreboard
  flow : FlowCheck

namespace Checkers

/-- The checkers at the start of a test with the memory file `mem` and the Spike log `log`. -/
def start (mem : InstrMem) (log : List LogLine) : Checkers where
  commit := { window := .start log }
  flow := .start mem (log.filterMap LogLine.execPc?)

/-- A retirement goes to both; `test_done_event` is triggered by the commit scoreboard. -/
def step (mem : InstrMem) (s : Checkers) (r : Retirement) : Checkers :=
  let commit := s.commit.receive (commitTx mem r)
  let flow := s.flow.step r
  { commit := commit
    flow :=
      if commit.ecallDetected && !s.commit.ecallDetected then
        { flow with scoreboard := flow.scoreboard.testDone }
      else flow }

/-- The checkers after a stream of retirements. -/
def run (mem : InstrMem) (s : Checkers) (rs : List Retirement) : Checkers := rs.foldl (step mem) s

/-- No `uvm_error` was reported. -/
structure Quiet (s : Checkers) : Prop where
  commit : s.commit.window.errors = 0
  flow : ∀ p ∈ s.flow.compared, p.1 = p.2

end Checkers

/-- The expected transactions once all of the log is read. -/
def readAll (q : List CommitTx) (log : List LogLine) : List CommitTx :=
  log.foldl processSpikeLine q

/-- A line changes the last transaction at most. -/
theorem processSpikeLine_cons (a : CommitTx) {q : List CommitTx} (hq : q ≠ []) (line : LogLine) :
    processSpikeLine (a :: q) line = a :: processSpikeLine q line := by
  obtain ⟨l, e, rfl⟩ := (List.eq_nil_or_concat q).resolve_left hq
  cases line with
  | exec pc instr => rfl
  | other => rfl
  | commit pc instr gpr =>
    rcases gpr with _ | ⟨rd, data⟩
    · rfl
    · have hlast : (a :: (l ++ [e])).getLast? = some e := by
        rw [← List.cons_append, List.getLast?_concat]
      have hdrop : (a :: (l ++ [e])).dropLast = a :: l := by
        rw [← List.cons_append, List.dropLast_concat]
      simp only [processSpikeLine, List.concat_eq_append, hlast, hdrop, List.getLast?_concat,
        List.dropLast_concat]
      split_ifs <;> rfl

theorem processSpikeLine_ne_nil {q : List CommitTx} (hq : q ≠ []) (line : LogLine) :
    processSpikeLine q line ≠ [] := by
  cases line with
  | exec pc instr => simp [processSpikeLine]
  | other => exact hq
  | commit pc instr gpr =>
    rcases gpr with _ | ⟨rd, data⟩
    · exact hq
    · rw [processSpikeLine]
      split
      · exact hq
      · split_ifs
        · simp
        · exact hq

theorem readAll_cons (a : CommitTx) {q : List CommitTx} (hq : q ≠ []) (log : List LogLine) :
    readAll (a :: q) log = a :: readAll q log := by
  induction log generalizing q with
  | nil => rfl
  | cons line log ih =>
    rw [readAll, List.foldl_cons, processSpikeLine_cons a hq]
    exact ih (processSpikeLine_ne_nil hq line)

theorem processSpikeLine_entry (q : List CommitTx) (e : SpikeEntry) :
    e.lines.foldl processSpikeLine q = q ++ [e.tx] := by
  rcases e with ⟨pc, instr, _ | _ | ⟨rd, data⟩⟩ <;>
    simp [SpikeEntry.lines, SpikeEntry.tx, processSpikeLine]

/-- **Reading a whole log gives its instructions one by one.** -/
theorem readAll_entries (q : List CommitTx) (es : List SpikeEntry) :
    readAll q (es.flatMap SpikeEntry.lines) = q ++ es.map SpikeEntry.tx := by
  induction es generalizing q with
  | nil => simp [readAll]
  | cons e es ih =>
    rw [List.flatMap_cons, readAll, List.foldl_append, processSpikeLine_entry]
    refine (ih _).trans ?_
    simp

/-- How far the log has been read does not matter in the end. -/
theorem readAll_readLog (q : List CommitTx) (log : List LogLine) :
    readAll (readLog q log).1 (readLog q log).2 = readAll q log := by
  induction log generalizing q with
  | nil => rfl
  | cons line log ih =>
    rw [readLog]
    split_ifs
    · exact ih _
    · rfl

/-- The log is read to its end unless the queue is full. -/
theorem readLog_full (q : List CommitTx) (log : List LogLine) :
    (readLog q log).2 = [] ∨ 500 ≤ (readLog q log).1.length := by
  induction log generalizing q with
  | nil => exact .inl rfl
  | cons line log ih =>
    rw [readLog]
    split_ifs with h
    · exact ih _
    · exact .inr (Nat.le_of_not_lt h)

/-! ## Checks

A check in step with the log compares the first expected transaction and drops it. For a
sequence of retirements with the pcs of the log all are compared. -/

namespace CommitWindow

/-- The window with its queue and the rest of the log stands for the instructions `txs`. -/
def Expects (w : CommitWindow) (txs : List CommitTx) : Prop := readAll w.expectedQ w.log = txs

variable {w : CommitWindow} {txs : List CommitTx} {actual : CommitTx}

theorem Expects.getNextExpected (h : w.Expects txs) : w.getNextExpected.Expects txs := by
  rw [CommitWindow.getNextExpected]
  split_ifs
  · exact h
  · exact (readAll_readLog _ _).trans h

/-- After `get_next_expected` the first instruction is in the queue, and its commit line has
been read: it is not the last one, or the log is at its end. -/
theorem Expects.head {e : CommitTx} (h : w.Expects (e :: txs)) :
    ∃ q, w.getNextExpected.expectedQ = e :: q ∧
      ∀ found errors, Expects ⟨q, w.getNextExpected.log, found, errors⟩ txs := by
  have hnext := h.getNextExpected
  have hfull : w.getNextExpected.log = [] ∨ 50 < w.getNextExpected.expectedQ.length := by
    rw [CommitWindow.getNextExpected]
    split_ifs with hlen
    · exact .inr hlen
    · obtain hend | hlong := readLog_full w.expectedQ w.log
      · exact .inl hend
      · exact .inr (Nat.lt_of_lt_of_le (by decide) hlong)
  rw [Expects] at hnext
  rcases hq : w.getNextExpected.expectedQ with _ | ⟨a, _ | ⟨b, q⟩⟩
  · obtain hend | hlong := hfull
    · rw [hq, hend] at hnext
      cases hnext
    · rw [hq] at hlong
      cases hlong
  · obtain hend | hlong := hfull
    · rw [hq, hend] at hnext
      obtain ⟨rfl, rfl⟩ := List.cons.inj hnext
      exact ⟨[], rfl, fun _ _ => by rw [Expects, hend]; rfl⟩
    · rw [hq] at hlong
      simp at hlong
  · rw [hq, readAll_cons a (List.cons_ne_nil b q)] at hnext
    obtain ⟨rfl, htxs⟩ := List.cons.inj hnext
    exact ⟨b :: q, rfl, fun _ _ => htxs⟩

theorem errors_getNextExpected : w.getNextExpected.errors = w.errors := by
  rw [getNextExpected]
  split_ifs <;> rfl

theorem errors_checkTransaction : w.errors ≤ (w.checkTransaction actual).errors := by
  rw [← errors_getNextExpected (w := w), checkTransaction]
  split
  · exact le_rfl
  · split_ifs
    · exact le_rfl
    · exact Nat.le_succ _

/-- The check of a retirement with the pc of the first instruction that is expected. -/
theorem Expects.checkTransaction_head {e : CommitTx} (h : w.Expects (e :: txs))
    (hpc : actual.pc = e.pc) :
    (w.checkTransaction actual).Expects txs ∧
      (w.checkTransaction actual).errors = w.errors + if actual.compare e then 0 else 1 := by
  obtain ⟨q, hq, hrest⟩ := h.head
  have hfind : (e :: q).find? (·.pc == actual.pc) = some e := by simp [hpc]
  have hidx : (e :: q).findIdx (·.pc == actual.pc) = 0 := by simp [List.findIdx_cons, hpc]
  have hcheck : w.checkTransaction actual =
      if actual.compare e then
        { w.getNextExpected with expectedQ := q, found := w.getNextExpected.found ++ [actual] }
      else { w.getNextExpected with expectedQ := q, errors := w.getNextExpected.errors + 1 } := by
    rw [checkTransaction]
    simp only [hq, hfind, hidx]
    rfl
  rw [hcheck, ← errors_getNextExpected (w := w)]
  split_ifs
  · exact ⟨hrest _ _, rfl⟩
  · exact ⟨hrest _ _, rfl⟩

/-- The checks of several retirements. -/
def checkAll (w : CommitWindow) (txs : List CommitTx) : CommitWindow :=
  txs.foldl checkTransaction w

theorem errors_checkAll (w : CommitWindow) (txs : List CommitTx) :
    w.errors ≤ (w.checkAll txs).errors := by
  induction txs generalizing w with
  | nil => exact le_rfl
  | cons tx txs ih => exact errors_checkTransaction.trans (ih _)

/-- What is searched and compared in every case: pc and instruction word. -/
def key (tx : CommitTx) : Word × Word := (tx.pc, tx.instr)

theorem processSpikeLine_keys (q : List CommitTx) (line : LogLine) :
    (processSpikeLine q line).map key = q.map key ++ (processSpikeLine [] line).map key := by
  cases line with
  | exec pc instr => simp [processSpikeLine]
  | other => simp [processSpikeLine]
  | commit pc instr gpr =>
    rcases gpr with _ | ⟨rd, data⟩
    · simp [processSpikeLine]
    · rcases List.eq_nil_or_concat q with rfl | ⟨l, e, rfl⟩
      · rfl
      · simp only [processSpikeLine, List.concat_eq_append, List.getLast?_concat,
          List.dropLast_concat, List.getLast?_nil, List.map_nil, List.append_nil]
        split_ifs
        · simp [key]
        · rfl

/-- A commit line adds no instruction to those of the execution lines. -/
theorem readAll_keys (q : List CommitTx) (log : List LogLine) :
    (readAll q log).map key = q.map key ++ (readAll [] log).map key := by
  induction log generalizing q with
  | nil => simp [readAll]
  | cons line log ih =>
    have hread : ∀ q, readAll q (line :: log) = readAll (processSpikeLine q line) log :=
      fun _ => rfl
    rw [hread, hread, ih, ih (processSpikeLine [] line), processSpikeLine_keys q,
      List.append_assoc]

end CommitWindow

/-! ## Runs -/

theorem receive_active {s : CommitScoreboard} {tx : CommitTx} (hs : s.ecallDetected = false)
    (htx : tx.instr ≠ ecallInstr) : (s.receive tx).ecallDetected = false := by
  rw [CommitScoreboard.receive, if_neg (by simp [hs]), if_neg htx]
  split
  · exact hs
  · split_ifs <;> exact hs

theorem errors_receive {s : CommitScoreboard} {tx : CommitTx} :
    s.window.errors ≤ (s.receive tx).window.errors := by
  rw [CommitScoreboard.receive]
  split_ifs
  · exact le_rfl
  · exact le_rfl
  · split
    · exact le_rfl
    · split_ifs
      · exact CommitWindow.errors_checkTransaction
      · exact le_rfl

/-- **The delay buffer**: the last twenty retirements wait, all before them are checked. -/
theorem receive_run (w : CommitWindow) (txs : List CommitTx)
    (h : ∀ tx ∈ txs, tx.instr ≠ ecallInstr) :
    txs.foldl CommitScoreboard.receive { window := w } =
      { actualBuffer := txs.drop (txs.length - 20)
        ecallDetected := false
        window := w.checkAll (txs.take (txs.length - 20)) } := by
  induction txs using List.reverseRecOn with
  | nil => rfl
  | append_singleton txs tx ih =>
    have htx : tx.instr ≠ ecallInstr := h tx (by simp)
    rw [List.foldl_append, ih fun t ht => h t (by simp [ht]), List.foldl_cons, List.foldl_nil,
      CommitScoreboard.receive, if_neg (by simp), if_neg htx]
    have hle : txs.length - 20 ≤ txs.length := Nat.sub_le _ _
    have hlen : (txs ++ [tx]).length = txs.length + 1 := List.length_append
    simp only [← List.drop_append_of_le_length hle, hlen]
    rcases hall : (txs ++ [tx]).drop (txs.length - 20) with _ | ⟨oldest, buffer⟩
    · have := congrArg List.length hall
      rw [List.length_drop, hlen, List.length_nil] at this
      omega
    have hcount := congrArg List.length hall
    rw [List.length_drop, hlen, List.length_cons] at hcount
    dsimp only
    split_ifs with hfull
    · -- the oldest of the buffer is the next one to be checked
      have hnext : txs.length + 1 - 20 = txs.length - 20 + 1 := by omega
      have hbuffer := congrArg List.tail hall
      rw [List.tail_drop, List.tail_cons] at hbuffer
      rw [hnext, hbuffer, List.take_add, hall, List.take_append_of_le_length hle]
      simp [CommitWindow.checkAll]
    · have hnone : txs.length - 20 = 0 ∧ txs.length + 1 - 20 = 0 := by omega
      rw [hnone.1] at hall
      rw [hnone.1, hnone.2, hall]
      rfl

namespace Checkers

variable {mem : InstrMem} {s : Checkers}

/-- Errors stay on record. -/
theorem quiet_of_step {r : Retirement} (h : (step mem s r).Quiet) : s.Quiet := by
  have hcompared : (step mem s r).flow.compared = (s.flow.step r).compared := by
    rw [step]
    dsimp only
    split_ifs <;> rfl
  constructor
  · exact Nat.le_zero.mp (errors_receive.trans_eq h.commit)
  · intro p hp
    refine h.flow p ?_
    rw [hcompared]
    exact (s.flow.compared_step r).subset hp

theorem quiet_of_run {rs : List Retirement} (h : (s.run mem rs).Quiet) : s.Quiet := by
  induction rs generalizing s with
  | nil => exact h
  | cons r rs ih => exact quiet_of_step (ih h)

/-- Before the ECALL the two checkers do not influence each other. -/
theorem run_before_ecall {ps : List Retirement} (hs : s.commit.ecallDetected = false)
    (hps : ∀ r ∈ ps, (commitTx mem r).instr ≠ ecallInstr) :
    s.run mem ps =
      { commit := (ps.map (commitTx mem)).foldl CommitScoreboard.receive s.commit
        flow := s.flow.run ps } := by
  induction ps generalizing s with
  | nil => rfl
  | cons r ps ih =>
    have hactive := receive_active hs (hps r List.mem_cons_self)
    have hstep : step mem s r =
        { commit := s.commit.receive (commitTx mem r), flow := s.flow.step r } := by
      rw [step, hactive]
      rfl
    have hih := ih (s := step mem s r) (by rw [hstep]; exact hactive)
      fun r' hr' => hps r' (List.mem_cons_of_mem _ hr')
    rw [hstep] at hih
    have hrun : s.run mem (r :: ps) = (step mem s r).run mem ps := rfl
    rw [hrun, hstep, hih]
    rfl

end Checkers

/-! ## What a quiet run ensures

Both halves together: the flow checker ties the pcs to the log, and with the pcs in step the
commit scoreboard compares field by field. -/

section soundness

variable {mem : InstrMem} {es : List SpikeEntry} {rs : List Retirement}

/-- The lines of a log. -/
def spikeLog (es : List SpikeEntry) : List LogLine := es.flatMap SpikeEntry.lines

/-- The instructions of the log before its ECALL. -/
def spikeBeforeEcall (es : List SpikeEntry) : List SpikeEntry :=
  es.takeWhile (·.instr != ecallInstr)

/-- The transactions that come out of the delay buffer before the ECALL. -/
def checkedTxs (mem : InstrMem) (ps : List Retirement) : List CommitTx :=
  (ps.map (commitTx mem)).take (ps.length - 20)

theorem execPcs_spikeLog (es : List SpikeEntry) :
    (spikeLog es).filterMap LogLine.execPc? = es.map (·.pc) := by
  induction es with
  | nil => rfl
  | cons e es ih =>
    have hentry : e.lines.filterMap LogLine.execPc? = [e.pc] := by
      rcases e with ⟨pc, instr, _ | gpr⟩ <;> rfl
    rw [spikeLog, List.flatMap_cons, List.filterMap_append, hentry]
    exact congrArg (e.pc :: ·) ih

theorem key_tx (e : SpikeEntry) : CommitWindow.key e.tx = (e.pc, e.instr) := by
  rcases e with ⟨pc, instr, _ | _ | ⟨rd, data⟩⟩ <;> rfl

theorem pcs_entries (es : List SpikeEntry) :
    (es.map SpikeEntry.tx).map (·.pc) = es.map (·.pc) := by
  rw [List.map_map]
  exact List.map_congr_left fun e _ => congrArg Prod.fst (key_tx e)

theorem start_blank (log : List LogLine) :
    (CommitWindow.start log).found = [] ∧ (CommitWindow.start log).errors = 0 := by
  rw [CommitWindow.start]
  split <;> exact ⟨rfl, rfl⟩

theorem start_expects (hlog : (es.map (·.pc)).head? = some startPc) :
    (CommitWindow.start (spikeLog es)).Expects (es.map SpikeEntry.tx) := by
  rcases es with _ | ⟨e, es⟩
  · cases hlog
  have hpc : e.pc = startPc := Option.some.inj hlog
  have hread := readAll_entries [] (e :: es)
  rw [List.nil_append] at hread
  have hstart : CommitWindow.start (spikeLog (e :: es)) =
      ⟨processSpikeLine [] (.exec e.pc e.instr),
        (e.commit.map (LogLine.commit e.pc e.instr)).toList ++ spikeLog es, [], 0⟩ := by
    simp [CommitWindow.start, spikeLog, SpikeEntry.lines, LogLine.pc?, hpc]
  rw [hstart, ← hread]
  rfl

section beforeEcall

variable {ps : List Retirement}
  (hps : ∀ r ∈ ps, r.instr ≠ ecallInstr ∧ (commitTx mem r).instr ≠ ecallInstr)

include hps

/-- All but the last twenty retirements have been checked. -/
theorem window_run (log : List LogLine) :
    ((Checkers.start mem log).run mem ps).commit.window =
      (CommitWindow.start log).checkAll (checkedTxs mem ps) := by
  have hcommit := receive_run (CommitWindow.start log) (ps.map (commitTx mem)) (by
    intro tx htx
    obtain ⟨r, hr, rfl⟩ := List.mem_map.mp htx
    exact (hps r hr).2)
  rw [List.length_map] at hcommit
  rw [Checkers.run_before_ecall rfl fun r hr => (hps r hr).2]
  exact congrArg CommitScoreboard.window hcommit

theorem flow_run (es : List SpikeEntry) :
    ((Checkers.start mem (spikeLog es)).run mem ps).flow =
      (FlowCheck.start mem (es.map (·.pc))).run ps := by
  rw [Checkers.run_before_ecall rfl fun r hr => (hps r hr).2, ← execPcs_spikeLog]
  rfl

end beforeEcall

end soundness

/-- The log of `addi x1, x0, 7; ecall`. -/
def addiLog : List SpikeEntry :=
  [⟨startPc, 0x00700093#32, some (some (1#5, 7#32))⟩, ⟨0x80000004#32, ecallInstr, none⟩]

end RiscvV2
