import RiscvV2.TraceCsv
import Mathlib.Data.List.Infix

/-!
# Comparing two instruction traces

`instr_trace_compare.py` walks through the first trace and stops at the instructions that
change a register. For each of them it moves the second trace forward to its next such
instruction and compares the updates. It leaves the loop as soon as the second trace is used
up, so a second trace that ends in the middle of the first one, with an instruction that
changes a register, is found equal to it (`compareTraceCsv_passes_iff`).

The loops are modelled with their early exits and the two ways in which Python can stop them.
For traces with proper updates neither occurs, and the comparison is one of two lists: the
updates of the instructions that change a register, in either trace. The condition under which
it passes is proved from any point of the loop on, by induction on the first trace, and lifted
to the exit code of a whole regression.
-/

namespace Regression

/-! ## The script -/

/-- How the script ends without a result. -/
inductive Exit
  /-- `Illegal GPR update format:` with the update -/
  | illegalGprUpdate (update : Text)
  /-- `int` finds no number -/
  | valueError (text : Text)
  /-- the variable of a loop over an empty trace is read -/
  | unboundLocal
  deriving DecidableEq

/-- The dictionaries `gpr_val_1` and `gpr_val_2`. -/
abbrev GprVal := Text → Option Text

/-- `{}` -/
def GprVal.empty : GprVal := fun _ => none

/-- `gpr[rd] = rd_val` -/
def GprVal.set (gpr : GprVal) (rd rdVal : Text) : GprVal := fun r =>
  if r = rd then some rdVal else gpr r

/-- Does the update change the register? One that was not written before holds zero. -/
def changesGpr (gpr : GprVal) (rd rdVal : Text) : Except Exit Bool :=
  match gpr rd with
  | some val => .ok (rdVal ≠ val)
  | none =>
    match intOfHex rdVal with
    | some n => .ok (n ≠ 0)
    | none => .error (.valueError rdVal)

/-- The loop of `check_update_gpr`, with `gpr_state_change`. -/
def checkUpdates : Bool → List Text → GprVal → Except Exit (Bool × GprVal)
  | stateChange, [], gpr => .ok (stateChange, gpr)
  | stateChange, update :: updates, gpr =>
    if update = [] then .ok (false, gpr)
    else
      match update.splitOn ':' with
      | [rd, rdVal] =>
        match changesGpr gpr rd rdVal with
        | .ok change => checkUpdates (stateChange || change) updates (gpr.set rd rdVal)
        | .error exit => .error exit
      | _ => .error (.illegalGprUpdate update)

/-- `check_update_gpr`. -/
def checkUpdateGpr (gprUpdate : List Text) (gpr : GprVal) : Except Exit (Bool × GprVal) :=
  checkUpdates false gprUpdate gpr

/-- `matched_cnt` and `mismatch_cnt`. -/
structure Counts where
  matched : ℕ := 0
  mismatch : ℕ := 0
  deriving DecidableEq, Repr

/-- The entries of a trace file, in order. -/
abbrev Trace := List RiscvInstructionTraceEntry

/-- The inner loop: the second trace is moved forward to a change, which is returned with what
is left of the trace. -/
def moveForward : Trace → GprVal → Except Exit (Option RiscvInstructionTraceEntry × Trace × GprVal)
  | [], gpr => .ok (none, [], gpr)
  | trace :: traces, gpr =>
    match checkUpdateGpr trace.gpr gpr with
    | .ok (true, gpr) => .ok (some trace, traces, gpr)
    | .ok (false, gpr) => moveForward traces gpr
    | .error exit => .error exit

/-- The updates of the first trace against those of the second, if it has any left. -/
def Counts.compare (counts : Counts) (trace : RiscvInstructionTraceEntry) :
    Option RiscvInstructionTraceEntry → Counts
  | none => { counts with mismatch := counts.mismatch + 1 }
  | some trace2 =>
    if trace.gpr = trace2.gpr then { counts with matched := counts.matched + 1 }
    else { counts with mismatch := counts.mismatch + 1 }

/-- The loop over the first trace. It returns what is left of the second trace. -/
def compareLoop : Trace → Trace → GprVal → GprVal → Counts →
    Except Exit (Trace × GprVal × Counts)
  | [], traces2, _, gpr2, counts => .ok (traces2, gpr2, counts)
  | trace :: traces, traces2, gpr1, gpr2, counts =>
    if trace.gpr.length = 0 then compareLoop traces traces2 gpr1 gpr2 counts
    else
      match checkUpdateGpr trace.gpr gpr1 with
      | .error exit => .error exit
      | .ok (false, gpr1) => compareLoop traces traces2 gpr1 gpr2 counts
      | .ok (true, gpr1) =>
        match moveForward traces2 gpr2 with
        | .error exit => .error exit
        | .ok (found, traces2, gpr2) =>
          -- the end of the second trace ends the loop
          if traces2 = [] then .ok ([], gpr2, counts.compare trace found)
          else compareLoop traces traces2 gpr1 gpr2 (counts.compare trace found)

/-- What is left of the second trace. From the first change on everything is counted; the
message about it needs the loop variable of the first trace. -/
def compareRest (bound : Bool) : Trace → GprVal → Counts → Except Exit Counts
  | [], _, counts => .ok counts
  | trace :: traces, gpr2, counts =>
    match checkUpdateGpr trace.gpr gpr2 with
    | .error exit => .error exit
    | .ok (false, gpr2) => compareRest bound traces gpr2 counts
    | .ok (true, _) =>
      if bound then .ok { counts with mismatch := counts.mismatch + (traces.length + 1) }
      else .error .unboundLocal

/-- `compare_trace_csv`. Out of order nothing is compared. -/
def compareTraceCsv (inOrderMode compareFinalValueOnly : Bool) (traces1 traces2 : Trace) :
    Except Exit Counts :=
  if inOrderMode && !compareFinalValueOnly then
    match compareLoop traces1 traces2 .empty .empty {} with
    | .error exit => .error exit
    | .ok (rest, gpr2, counts) => compareRest (!traces1.isEmpty) rest gpr2 counts
  else .ok {}

/-- `is_failed` in `compare_trace_csvs`: the script broke off or printed `[FAILED]`. -/
def isFailed : Except Exit Counts → Bool
  | .error _ => true
  | .ok counts => counts.mismatch ≠ 0

/-- `process_seed` from the logs of both simulators on. -/
def processSeed (instrStr : Text → Text) (spikeLog : List SpikeLine)
    (rtlLog : List (Option RtlMatch)) : Bool :=
  !isFailed (compareTraceCsv true false (readTrace (processSpikeSimLog spikeLog))
    (readTrace (rtlLogToCsv instrStr rtlLog)))

/-- What the simulators leave of a seed: the disassembly of its program and the logs. -/
structure Seed where
  instrStr : Text → Text
  spikeLog : List SpikeLine
  rtlLog : List (Option RtlMatch)

/-- `pass_count` and `fail_count`. -/
def countSeeds (seeds : List Seed) : ℕ × ℕ :=
  seeds.foldl (fun n seed =>
    if processSeed seed.instrStr seed.spikeLog seed.rtlLog then (n.1 + 1, n.2)
    else (n.1, n.2 + 1)) (0, 0)

/-- The exit code of `run_simulation.py`, which wants at least one seed. -/
def runSimulation (seeds : List Seed) : ℕ :=
  if seeds = [] then 1 else if (countSeeds seeds).2 ≠ 0 then 1 else 0

/-! ## The instructions that change a register

The dictionary of the script is the state, and an instruction changes a register if an update
differs from what the dictionary has. Everything else in the trace is skipped. -/

namespace RiscvInstructionTraceEntry

/-- Whether the instruction changes a register, and the registers behind it. -/
def step (entry : RiscvInstructionTraceEntry) (gpr : GprVal) : Bool × GprVal :=
  match checkUpdateGpr entry.gpr gpr with
  | .ok r => r
  | .error _ => (false, gpr)

end RiscvInstructionTraceEntry

/-- The updates of the instructions that change a register. -/
def changing (gpr : GprVal) : Trace → List (List Text)
  | [] => []
  | trace :: traces =>
    if (trace.step gpr).1 then trace.gpr :: changing (trace.step gpr).2 traces
    else changing (trace.step gpr).2 traces

/-- The last instruction changes a register. -/
def endsInChange (gpr : GprVal) : Trace → Bool
  | [] => false
  | trace :: traces =>
    if traces = [] then (trace.step gpr).1 else endsInChange (trace.step gpr).2 traces

variable {gpr gpr1 gpr2 : GprVal} {traces traces1 traces2 : Trace} {counts : Counts}

theorem changesGpr_ok (gpr : GprVal) (rd : Text) (val : HexText) :
    changesGpr gpr rd val.text =
      .ok (match gpr rd with
        | some v => decide (val.text ≠ v)
        | none => decide (val.value ≠ 0)) := by
  unfold changesGpr
  cases gpr rd with
  | some v => rfl
  | none => simp [val.intOfHex_text]

theorem splitOn_gprField {rd : Text} (hrd : IsName rd) (val : HexText) :
    (gprField rd val).splitOn ':' = [rd, val.text] := by
  have hval : (val.text).splitOn ':' = [val.text] :=
    List.splitOn_eq_singleton (val.not_mem (by decide))
  rw [gprField, List.splitOn_append_cons_self_of_not_mem hrd.1, hval]

theorem gprField_ne_nil (rd : Text) (val : HexText) : gprField rd val ≠ [] := by
  simp [gprField]

/-- Proper updates are read without an error. -/
theorem checkUpdates_ok {us : List (Text × HexText)} (hus : ∀ u ∈ us, IsName u.1)
    (stateChange : Bool) (gpr : GprVal) :
    ∃ r, checkUpdates stateChange (us.map fun u => gprField u.1 u.2) gpr = .ok r := by
  induction us generalizing stateChange gpr with
  | nil => exact ⟨_, rfl⟩
  | cons u us ih =>
    obtain ⟨r, hr⟩ := ih (fun v hv => hus v (by simp [hv])) (stateChange || _)
      (gpr.set u.1 u.2.text)
    refine ⟨r, ?_⟩
    rw [List.map_cons, checkUpdates, if_neg (gprField_ne_nil _ _),
      splitOn_gprField (hus u (by simp))]
    dsimp only
    rw [changesGpr_ok]
    exact hr

theorem checkUpdateGpr_ok {entry : RiscvInstructionTraceEntry} (h : entry.WellFormed)
    (gpr : GprVal) : checkUpdateGpr entry.gpr gpr = .ok (entry.step gpr) := by
  obtain ⟨us, hus, hgpr⟩ := h
  have hok : ∃ r, checkUpdateGpr entry.gpr gpr = .ok r := by
    rw [hgpr]
    split
    · exact ⟨_, rfl⟩
    · exact checkUpdates_ok hus false gpr
  obtain ⟨r, hr⟩ := hok
  rw [RiscvInstructionTraceEntry.step, hr]

theorem changing_cons_of_change {trace : RiscvInstructionTraceEntry}
    (h : (trace.step gpr).1 = true) :
    changing gpr (trace :: traces) = trace.gpr :: changing (trace.step gpr).2 traces :=
  if_pos h

theorem changing_cons_of_no_change {trace : RiscvInstructionTraceEntry}
    (h : (trace.step gpr).1 = false) :
    changing gpr (trace :: traces) = changing (trace.step gpr).2 traces :=
  if_neg (by simp [h])

theorem changing_ne_nil_of_endsInChange (h : endsInChange gpr traces = true) :
    changing gpr traces ≠ [] := by
  induction traces generalizing gpr with
  | nil => cases h
  | cons trace traces ih =>
    cases hstep : (trace.step gpr).1 with
    | true =>
      rw [changing_cons_of_change hstep]
      exact List.cons_ne_nil _ _
    | false =>
      rw [changing_cons_of_no_change hstep]
      rw [endsInChange] at h
      split at h
      · rw [hstep] at h
        cases h
      · exact ih h

/-! ## The loops

The inner loop stops at a change of the second trace. The outer loop takes a change of the first
trace to each, and counts. -/

/-- **The inner loop** ends at the first change of the second trace, or at its end. -/
theorem moveForward_ok (h : ∀ entry ∈ traces, entry.WellFormed) (gpr : GprVal) :
    (∃ gpr', moveForward traces gpr = .ok (none, [], gpr') ∧ changing gpr traces = []) ∨
      ∃ found rest gpr', moveForward traces gpr = .ok (some found, rest, gpr') ∧
        rest <:+ traces ∧ changing gpr traces = found.gpr :: changing gpr' rest ∧
        endsInChange gpr traces = if rest = [] then true else endsInChange gpr' rest := by
  induction traces generalizing gpr with
  | nil => exact .inl ⟨gpr, rfl, rfl⟩
  | cons trace traces ih =>
    have hcheck := checkUpdateGpr_ok (h trace (by simp)) gpr
    rcases hstep : trace.step gpr with ⟨_ | _, gpr'⟩
    · rw [hstep] at hcheck
      have hchanging : changing gpr (trace :: traces) = changing gpr' traces := by
        rw [changing_cons_of_no_change (by rw [hstep]), hstep]
      have hmove : moveForward (trace :: traces) gpr = moveForward traces gpr' := by
        rw [moveForward, hcheck]
      rcases ih (fun e he => h e (by simp [he])) gpr' with ⟨gpr'', hnone, hnil⟩ |
        ⟨found, rest, gpr'', hfound, hsuffix, hrest, hends⟩
      · exact .inl ⟨gpr'', hmove.trans hnone, hchanging.trans hnil⟩
      · refine .inr ⟨found, rest, gpr'', hmove.trans hfound,
          hsuffix.trans (List.suffix_cons _ _), hchanging.trans hrest, ?_⟩
        have hne : traces ≠ [] := by
          rintro rfl
          cases hrest
        rw [endsInChange, if_neg hne, hstep]
        exact hends
    · rw [hstep] at hcheck
      refine .inr ⟨trace, traces, gpr', ?_, List.suffix_cons _ _, ?_, ?_⟩
      · rw [moveForward, hcheck]
      · rw [changing_cons_of_change (by rw [hstep]), hstep]
      · rw [endsInChange, hstep]

theorem compareRest_passes_iff (h : ∀ entry ∈ traces2, entry.WellFormed) (bound : Bool) :
    isFailed (compareRest bound traces2 gpr2 counts) = false ↔
      counts.mismatch = 0 ∧ changing gpr2 traces2 = [] := by
  induction traces2 generalizing gpr2 with
  | nil => simp [compareRest, changing, isFailed]
  | cons trace traces ih =>
    have hcheck := checkUpdateGpr_ok (h trace (by simp)) gpr2
    rcases hstep : trace.step gpr2 with ⟨_ | _, gpr'⟩
    · rw [hstep] at hcheck
      rw [compareRest, hcheck, changing_cons_of_no_change (by rw [hstep]), hstep]
      exact ih fun e he => h e (by simp [he])
    · rw [hstep] at hcheck
      rw [compareRest, hcheck, changing_cons_of_change (by rw [hstep])]
      cases bound <;> simp [isFailed]

theorem mismatch_compare_some (counts : Counts) (trace trace2 : RiscvInstructionTraceEntry) :
    (counts.compare trace (some trace2)).mismatch = 0 ↔
      counts.mismatch = 0 ∧ trace.gpr = trace2.gpr := by
  rw [Counts.compare]
  split <;> simp_all

/-- **The loop from any point on**, with what the script does behind it. -/
theorem compareLoop_passes_iff (h1 : ∀ entry ∈ traces1, entry.WellFormed)
    (h2 : ∀ entry ∈ traces2, entry.WellFormed) (bound : Bool) :
    isFailed (match compareLoop traces1 traces2 gpr1 gpr2 counts with
        | .error exit => .error exit
        | .ok (rest, gpr2, counts) => compareRest bound rest gpr2 counts) = false ↔
      counts.mismatch = 0 ∧ (changing gpr1 traces1 = changing gpr2 traces2 ∨
        endsInChange gpr2 traces2 = true ∧ changing gpr2 traces2 <+: changing gpr1 traces1) := by
  induction traces1 generalizing traces2 gpr1 gpr2 counts with
  | nil =>
    rw [compareLoop]
    dsimp only
    rw [compareRest_passes_iff h2]
    refine and_congr_right fun _ => ⟨fun hnil => .inl hnil.symm, ?_⟩
    rintro (heq | ⟨hends, hprefix⟩)
    · exact heq.symm
    · exact List.prefix_nil.mp hprefix
  | cons trace traces ih =>
    have hcheck := checkUpdateGpr_ok (h1 trace (by simp)) gpr1
    have hlength : trace.gpr.length ≠ 0 := by
      obtain ⟨us, -, hgpr⟩ := h1 trace (by simp)
      rw [hgpr]
      split <;> simp_all
    have h1' : ∀ entry ∈ traces, entry.WellFormed := fun e he => h1 e (by simp [he])
    rcases hstep : trace.step gpr1 with ⟨_ | _, gpr1'⟩
    · rw [hstep] at hcheck
      rw [compareLoop, if_neg hlength, hcheck, changing_cons_of_no_change (by rw [hstep]), hstep]
      exact ih h1' h2
    · rw [hstep] at hcheck
      rw [compareLoop, if_neg hlength, hcheck, changing_cons_of_change (by rw [hstep]), hstep]
      dsimp only
      rcases moveForward_ok h2 gpr2 with ⟨gpr2', hmove, hnil⟩ |
        ⟨found, rest, gpr2', hmove, hsuffix, hrest, hends⟩
      · -- the second trace changes nothing any more
        have hfalse : endsInChange gpr2 traces2 = false := by
          rw [Bool.eq_false_iff]
          exact fun hends => changing_ne_nil_of_endsInChange hends hnil
        simp [hmove, hnil, hfalse, isFailed, compareRest, Counts.compare]
      · rw [hmove, hrest, hends]
        dsimp only
        have hcounts := mismatch_compare_some counts trace found
        by_cases hlast : rest = []
        · -- the loop ends here, whatever is left of the first trace
          subst hlast
          simp only [if_true, compareRest, isFailed, decide_not, Bool.not_eq_false',
            decide_eq_true_eq, hcounts, changing, true_and, List.cons_prefix_cons,
            List.nil_prefix, and_true, List.cons.injEq]
          refine and_congr_right fun _ => ⟨fun heq => .inr heq.symm, ?_⟩
          rintro (⟨heq, -⟩ | heq)
          · exact heq
          · exact heq.symm
        · rw [if_neg hlast, if_neg hlast,
            ih h1' fun e he => h2 e (hsuffix.subset he), hcounts, and_assoc]
          refine and_congr_right fun _ => ?_
          rw [List.cons.injEq, List.cons_prefix_cons]
          constructor
          · rintro ⟨heq, hagree | ⟨hends', hprefix⟩⟩
            · exact .inl ⟨heq, hagree⟩
            · exact .inr ⟨hends', heq.symm, hprefix⟩
          · rintro (⟨heq, hagree⟩ | ⟨hends', heq, hprefix⟩)
            · exact ⟨heq, .inl hagree⟩
            · exact ⟨heq.symm, .inr ⟨hends', hprefix⟩⟩

/-- **When two traces are found equal.** -/
theorem compareTraceCsv_passes_iff (h1 : ∀ entry ∈ traces1, entry.WellFormed)
    (h2 : ∀ entry ∈ traces2, entry.WellFormed) :
    isFailed (compareTraceCsv true false traces1 traces2) = false ↔
      changing .empty traces1 = changing .empty traces2 ∨
        endsInChange .empty traces2 = true ∧
          changing .empty traces2 <+: changing .empty traces1 := by
  rw [compareTraceCsv, if_pos (by decide), compareLoop_passes_iff h1 h2]
  simp

/-! ## The regression -/

namespace Seed

/-- The updates in the log of Spike that change a register. -/
def spikeChanges (seed : Seed) : List (List Text) :=
  changing .empty (readTrace (processSpikeSimLog seed.spikeLog))

/-- The updates in the log of the RTL simulation that change a register. -/
def rtlChanges (seed : Seed) : List (List Text) :=
  changing .empty (readTrace (rtlLogToCsv seed.instrStr seed.rtlLog))

/-- The last row of the RTL trace changes a register. -/
def rtlEndsInChange (seed : Seed) : Bool :=
  endsInChange .empty (readTrace (rtlLogToCsv seed.instrStr seed.rtlLog))

end Seed

theorem processSeed_iff (seed : Seed) :
    processSeed seed.instrStr seed.spikeLog seed.rtlLog = true ↔
      seed.spikeChanges = seed.rtlChanges ∨
        seed.rtlEndsInChange = true ∧ seed.rtlChanges <+: seed.spikeChanges := by
  rw [processSeed, Bool.not_eq_true']
  exact compareTraceCsv_passes_iff (wellFormed_spike _) (wellFormed_rtl _ _)

theorem fail_count_eq_zero_iff (seeds : List Seed) (n : ℕ × ℕ) :
    (seeds.foldl (fun n seed =>
        if processSeed seed.instrStr seed.spikeLog seed.rtlLog then (n.1 + 1, n.2)
        else (n.1, n.2 + 1)) n).2 = 0 ↔
      n.2 = 0 ∧ ∀ seed ∈ seeds, processSeed seed.instrStr seed.spikeLog seed.rtlLog = true := by
  induction seeds generalizing n with
  | nil => simp
  | cons seed seeds ih =>
    rw [List.foldl_cons, ih, List.forall_mem_cons]
    split
    next h => simp [h]
    next h => simp [h]

/-- **What the exit code says**: for all logs of all seeds, the regression passes exactly if
for each seed the updates that change a register are the same in both logs, or the RTL log
ends with such an update and has the first ones of Spike. -/
theorem runSimulation_passes_iff (seeds : List Seed) :
    runSimulation seeds = 0 ↔ seeds ≠ [] ∧ ∀ seed ∈ seeds,
      seed.spikeChanges = seed.rtlChanges ∨
        seed.rtlEndsInChange = true ∧ seed.rtlChanges <+: seed.spikeChanges := by
  have hcount := fail_count_eq_zero_iff seeds (0, 0)
  have hexit : runSimulation seeds = 0 ↔ seeds ≠ [] ∧ (countSeeds seeds).2 = 0 := by
    rw [runSimulation]
    split
    next h => simp [h]
    next h => simp [h]
  rw [hexit, countSeeds, hcount]
  simp only [true_and, processSeed_iff]

end Regression
