import RiscvV2.CpuTop
import Mathlib.Data.List.Destutter
import Mathlib.Data.List.TakeWhile

/-!
# The program-flow checker

The flow monitor turns the retired pcs into transactions `(previous pc, pc)` and leaves out
those of a repeated pc; for each of them the predictor looks up the next pc in the execution
lines of the Spike log; the scoreboard compares what it takes from two FIFOs. The three stay
in step exactly as long as no repeated pc is followed by another one: the predictor keeps the
repetition that the monitor has dropped.

The three components are modelled as functions of what they receive, and the FIFOs of the
scoreboard as lists. In step with the trace both FIFOs are empty and the pointer of the
predictor stands behind the last retired pc. A step keeps this, or else the predictor falls
behind and from then on every other pc is compared with the wrong prediction; so the absence of
false alarms has an exact condition on the retired pcs (`flow_check_exact_iff`).
-/

namespace RiscvV2

/-! ## The components -/

/-- The first pc of a test program. -/
def startPc : Word := 0x80000000#32

/-- The encoding of `ECALL`, which ends a test. -/
def ecallInstr : Word := 0x00000073#32

/-- `instr_mem`: the words of the memory file by word address. -/
abbrev InstrMem := Word → Option Word

/-- `word_addr`. -/
def wordAddr (pc : Word) : Word := (pc - startPc) >>> 2

/-- `riscv_flow_transaction`. -/
structure FlowTx where
  currentPc : Word
  nextPc : Word
  deriving DecidableEq, Repr

/-- `cpu_flow_monitor`. -/
structure FlowMonitor where
  prevPc : Word := startPc
  /-- the monitor left its loop at an ECALL -/
  stopped : Bool := false

/-- The monitor on a retirement, with the transaction it writes. -/
def FlowMonitor.sample (m : FlowMonitor) (r : Retirement) : FlowMonitor × Option FlowTx :=
  if m.stopped then (m, none)
  else if r.instr = ecallInstr then ({ m with stopped := true }, none)
  else
    ({ m with prevPc := r.pc }, if m.prevPc ≠ r.pc then some ⟨m.prevPc, r.pc⟩ else none)

/-- `cpu_flow_predictor` after it has read the memory file and the log. -/
structure FlowPredictor where
  instrMem : InstrMem
  expectedPcQ : List Word
  tracePtr : ℕ := 0

/-- `write`: the predictor on a transaction, with the transaction it predicts. -/
def FlowPredictor.write (p : FlowPredictor) (tx : FlowTx) : FlowPredictor × Option FlowTx :=
  if p.instrMem (wordAddr tx.currentPc) = some ecallInstr then (p, none)
  else
    -- find the matching pc in the trace, starting from the current pointer
    let skipped := (p.expectedPcQ.drop p.tracePtr).takeWhile (· != tx.currentPc)
    let ptr := p.tracePtr + skipped.length
    match p.expectedPcQ[ptr + 1]? with
    | none => ({ p with tracePtr := ptr }, none)
    | some pc => ({ p with tracePtr := ptr + 1 }, some ⟨tx.currentPc, pc⟩)

/-- `cpu_flow_scoreboard`, with the comparisons it has made. -/
structure FlowScoreboard where
  expectedFifo : List FlowTx := []
  actualFifo : List FlowTx := []
  ecallDetected : Bool := false
  /-- actual and expected transactions compared so far -/
  compared : List (FlowTx × FlowTx) := []

/-- The loop of the scoreboard runs until one of the FIFOs is empty. -/
def FlowScoreboard.drain (s : FlowScoreboard) : FlowScoreboard where
  expectedFifo := s.expectedFifo.drop s.actualFifo.length
  actualFifo := s.actualFifo.drop s.expectedFifo.length
  ecallDetected := s.ecallDetected
  compared := s.compared ++ s.actualFifo.zip s.expectedFifo

/-- An actual transaction arrives, with the predicted one if there is one. After the ECALL
actual transactions are dropped. -/
def FlowScoreboard.put (s : FlowScoreboard) (actual : FlowTx) (expected : Option FlowTx) :
    FlowScoreboard :=
  { s with
    expectedFifo := s.expectedFifo ++ expected.toList
    actualFifo := if s.ecallDetected then s.actualFifo else s.actualFifo ++ [actual] }.drain

/-- `test_done_event`: what waits in the FIFO is dropped, but for the transaction the loop has
taken already. -/
def FlowScoreboard.testDone (s : FlowScoreboard) : FlowScoreboard :=
  { s with ecallDetected := true, actualFifo := s.actualFifo.take 1 }

/-- Monitor, predictor and scoreboard. -/
structure FlowCheck where
  monitor : FlowMonitor := {}
  predictor : FlowPredictor
  scoreboard : FlowScoreboard := {}

namespace FlowCheck

/-- The checker at the start of a test; `pcs` are those of the execution lines of the log. -/
def start (mem : InstrMem) (pcs : List Word) : FlowCheck :=
  { predictor := { instrMem := mem, expectedPcQ := pcs } }

/-- The checker on a retirement. -/
def step (s : FlowCheck) (r : Retirement) : FlowCheck :=
  let (monitor, tx) := s.monitor.sample r
  match tx with
  | none => { s with monitor := monitor }
  | some tx =>
    let (predictor, expected) := s.predictor.write tx
    { monitor := monitor
      predictor := predictor
      scoreboard := s.scoreboard.put tx expected }

/-- The checker on a stream of retirements. -/
def run (s : FlowCheck) (rs : List Retirement) : FlowCheck := rs.foldl step s

/-- The comparisons made so far. -/
def compared (s : FlowCheck) : List (FlowTx × FlowTx) := s.scoreboard.compared

/-- **No false alarm**: no comparison fails, and each actual transaction is compared with the
transaction predicted in the same step. -/
structure NoFalseAlarm (s : FlowCheck) (rs : List Retirement) : Prop where
  noMismatch : ∀ p ∈ (s.run rs).compared, p.1 = p.2
  sameStep : ∀ pre r post, rs = pre ++ r :: post →
    ∀ tx, ((s.run pre).monitor.sample r).2 = some tx →
      ∃ e, ((s.run pre).predictor.write tx).2 = some e ∧
        (s.run (pre ++ [r])).compared = (s.run pre).compared ++ [(tx, e)]

/-! ## Steps -/

variable {s : FlowCheck} {r : Retirement} {rs : List Retirement}

/-- Comparisons are only added. -/
theorem compared_step (s : FlowCheck) (r : Retirement) : s.compared <+: (s.step r).compared := by
  rw [step]
  rcases s.monitor.sample r with ⟨m, _ | tx⟩
  · exact List.prefix_rfl
  · exact List.prefix_append _ _

theorem compared_run (s : FlowCheck) (rs : List Retirement) :
    s.compared <+: (s.run rs).compared := by
  induction rs generalizing s with
  | nil => exact List.prefix_rfl
  | cons r rs ih => exact (s.compared_step r).trans (ih _)

/-- A step in which the monitor writes nothing. -/
theorem step_of_none (h : (s.monitor.sample r).2 = none) :
    s.step r = { s with monitor := (s.monitor.sample r).1 } := by
  rw [step]
  rcases hs : s.monitor.sample r with ⟨m, _ | tx⟩
  · rfl
  · rw [hs] at h
    cases h

theorem step_of_some {tx : FlowTx} (h : (s.monitor.sample r).2 = some tx) :
    s.step r =
      { monitor := (s.monitor.sample r).1
        predictor := (s.predictor.write tx).1
        scoreboard := s.scoreboard.put tx (s.predictor.write tx).2 } := by
  rw [step]
  rcases hs : s.monitor.sample r with ⟨m, _ | tx'⟩
  · rw [hs] at h
    cases h
  · rw [hs] at h
    obtain rfl : tx' = tx := Option.some.inj h
    rfl

/-- From an `ECALL` of the memory file nothing is predicted. -/
theorem write_ecall {p : FlowPredictor} (tx : FlowTx)
    (h : p.instrMem (wordAddr tx.currentPc) = some ecallInstr) : p.write tx = (p, none) := by
  rw [FlowPredictor.write, if_pos h]

theorem instrMem_write (p : FlowPredictor) (tx : FlowTx) :
    (p.write tx).1.instrMem = p.instrMem := by
  rw [FlowPredictor.write]
  split_ifs
  · rfl
  · dsimp only
    split <;> rfl

theorem instrMem_step (s : FlowCheck) (r : Retirement) :
    (s.step r).predictor.instrMem = s.predictor.instrMem := by
  rw [step]
  rcases s.monitor.sample r with ⟨m, _ | tx⟩
  · rfl
  · exact instrMem_write _ _

/-- No false alarm in a stream: none in its first step, none in the others. -/
theorem noFalseAlarm_cons : NoFalseAlarm s (r :: rs) ↔
    (∀ tx, (s.monitor.sample r).2 = some tx →
      ∃ e, (s.predictor.write tx).2 = some e ∧ (s.step r).compared = s.compared ++ [(tx, e)]) ∧
    NoFalseAlarm (s.step r) rs := by
  refine ⟨fun h => ⟨h.sameStep [] r rs rfl, h.noMismatch, ?_⟩,
    fun ⟨hfirst, h⟩ => ⟨h.noMismatch, ?_⟩⟩
  · rintro pre r' post rfl
    exact h.sameStep (r :: pre) r' post rfl
  · rintro (_ | ⟨r', pre⟩) r'' post heq
    · obtain ⟨rfl, rfl⟩ := List.cons.inj heq
      exact hfirst
    · obtain ⟨rfl, rfl⟩ := List.cons.inj heq
      exact h.sameStep pre r'' post rfl

/-! ## The checker in step with the trace

The invariant of a run without repetitions, and the three things a retirement can do to it: stay
at the same pc, go on to the next entry of the trace, or end the test. -/

/-- The FIFOs are empty and from the predictor's pointer on the trace goes on with the last
retired pc `a`, then `rest`. -/
structure InStep (s : FlowCheck) (a : Word) (rest : List Word) : Prop where
  running : s.monitor.stopped = false
  prev : s.monitor.prevPc = a
  trace : (s.predictor.expectedPcQ.drop s.predictor.tracePtr).dropWhile (· != a) = a :: rest
  expected : s.scoreboard.expectedFifo = []
  actual : s.scoreboard.actualFifo = []
  active : s.scoreboard.ecallDetected = false

variable {a : Word} {rest : List Word}

/-- A stopped monitor never writes again. -/
theorem noFalseAlarm_stopped (hs : s.monitor.stopped = true)
    (hclean : ∀ p ∈ s.compared, p.1 = p.2) : NoFalseAlarm s rs := by
  induction rs generalizing s with
  | nil => exact ⟨hclean, fun pre r post h => by simp at h⟩
  | cons r rs ih =>
    have hsample : s.monitor.sample r = (s.monitor, none) := by
      rw [FlowMonitor.sample, if_pos hs]
    have hstep := step_of_none (congrArg Prod.snd hsample)
    rw [hsample] at hstep
    rw [noFalseAlarm_cons, hsample, hstep]
    exact ⟨fun tx h => (by cases h), ih hs hclean⟩

namespace InStep

variable (h : InStep s a rest)

include h

theorem sample (hr : r.instr ≠ ecallInstr) :
    s.monitor.sample r =
      ({ s.monitor with prevPc := r.pc }, if a ≠ r.pc then some ⟨a, r.pc⟩ else none) := by
  rw [FlowMonitor.sample, if_neg (by simp [h.running]), if_neg hr, h.prev]

/-- A repeated pc leaves everything as it is. -/
theorem step_repeat (hr : r.instr ≠ ecallInstr) (hpc : r.pc = a) :
    s.step r = { s with monitor := { s.monitor with prevPc := a } } ∧ InStep (s.step r) a rest := by
  have hsample := h.sample hr
  rw [if_neg (by simp [hpc]), hpc] at hsample
  have hstep := step_of_none (congrArg Prod.snd hsample)
  rw [hsample] at hstep
  rw [hstep]
  exact ⟨rfl, { h with prev := rfl }⟩

/-- **The prediction** is the entry of the trace behind `a`, and the pointer moves on to it. -/
theorem write_cons (ha : s.predictor.instrMem (wordAddr a) ≠ some ecallInstr) {c : Word}
    {rest' : List Word} (hrest : rest = c :: rest') (b : Word) :
    ∃ ptr, s.predictor.write ⟨a, b⟩ = ({ s.predictor with tracePtr := ptr }, some ⟨a, c⟩) ∧
      s.predictor.expectedPcQ.drop ptr = c :: rest' := by
  have htrace := h.trace
  rw [← Sequences.drop_length_takeWhile, List.drop_drop, hrest] at htrace
  have hnext := congrArg (·[1]?) htrace
  have htail := congrArg List.tail htrace
  simp only [List.getElem?_drop, List.getElem?_cons_succ, List.getElem?_cons_zero] at hnext
  rw [List.tail_drop, List.tail_cons] at htail
  refine ⟨_, ?_, htail⟩
  rw [FlowPredictor.write, if_neg ha]
  simp only [hnext]

variable {b : Word} (hr : r.instr ≠ ecallInstr) (hpc : r.pc = b) (hne : a ≠ b)

include hr hpc hne

theorem sample_ne : s.monitor.sample r = ({ s.monitor with prevPc := b }, some ⟨a, b⟩) := by
  rw [h.sample hr, hpc, if_pos hne]

/-- **A step to another pc** compares it with the next entry of the trace. -/
theorem step_ne (ha : s.predictor.instrMem (wordAddr a) ≠ some ecallInstr) {c : Word}
    {rest' : List Word} (hrest : rest = c :: rest') :
    (s.predictor.write ⟨a, b⟩).2 = some ⟨a, c⟩ ∧
    (s.step r).compared = s.compared ++ [(⟨a, b⟩, ⟨a, c⟩)] ∧
    (b = c → InStep (s.step r) b rest') := by
  obtain ⟨ptr, hwrite, hdrop⟩ := h.write_cons ha hrest b
  have hsample := h.sample_ne hr hpc hne
  have hstep := step_of_some (congrArg Prod.snd hsample)
  rw [hsample, hwrite] at hstep
  have hput : s.scoreboard.put ⟨a, b⟩ (some ⟨a, c⟩) =
      { s.scoreboard with compared := s.scoreboard.compared ++ [(⟨a, b⟩, ⟨a, c⟩)] } := by
    simp [FlowScoreboard.put, FlowScoreboard.drain, h.expected, h.actual, h.active]
  rw [hstep, hput]
  refine ⟨congrArg Prod.snd hwrite, rfl, ?_⟩
  rintro rfl
  exact
    { h with
      prev := rfl
      trace := by simp [hdrop] }

end InStep

/-! ## Runs without false alarms

The induction over a run, with the checker in step or behind. The two conditions on the pcs are
about the whole list of them, and each comes with the lemmas for one pc more that the induction
needs. -/

/-- The retirements before the first ECALL. -/
def beforeEcall (rs : List Retirement) : List Retirement := rs.takeWhile (·.instr != ecallInstr)

theorem beforeEcall_ecall (hr : r.instr = ecallInstr) : beforeEcall (r :: rs) = [] := by
  rw [beforeEcall, List.takeWhile_cons_of_neg (by simp [hr])]

theorem beforeEcall_cons (hr : r.instr ≠ ecallInstr) :
    beforeEcall (r :: rs) = r :: beforeEcall rs := by
  rw [beforeEcall, List.takeWhile_cons_of_pos (by simp [hr])]
  rfl

theorem beforeEcall_append {ps : List Retirement} (hps : ∀ r ∈ ps, r.instr ≠ ecallInstr) :
    beforeEcall (ps ++ rs) = ps ++ beforeEcall rs := by
  induction ps with
  | nil => rfl
  | cons r ps ih =>
    rw [List.cons_append, beforeEcall_cons (hps r List.mem_cons_self),
      ih fun r' hr' => hps r' (List.mem_cons_of_mem _ hr'), List.cons_append]

/-- What comes behind the ECALL does not matter. -/
theorem beforeEcall_append_of_mem {later : List Retirement}
    (hecall : ∃ r ∈ rs, r.instr = ecallInstr) : beforeEcall (rs ++ later) = beforeEcall rs := by
  induction rs with
  | nil => obtain ⟨r, hr, -⟩ := hecall; cases hr
  | cons r rs ih =>
    rw [List.cons_append]
    by_cases hr : r.instr = ecallInstr
    · rw [beforeEcall_ecall hr, beforeEcall_ecall hr]
    · obtain ⟨r', hr', hinstr⟩ := hecall
      obtain rfl | hr' := List.mem_cons.mp hr'
      · exact absurd hinstr hr
      · rw [beforeEcall_cons hr, beforeEcall_cons hr, ih ⟨r', hr', hinstr⟩]

/-- The retired word is the one of the memory file, where that has one. -/
def FromProgram (mem : InstrMem) (r : Retirement) : Prop :=
  ∀ w, mem (wordAddr r.pc) = some w → r.instr = w

/-- A pc that was retired twice in a row is never followed by another one. -/
def StuckOnceRepeated (pcs : List Word) : Prop :=
  ∀ pre a post, pcs = pre ++ a :: a :: post → ∀ b ∈ post, b = a

/-- No pc with an `ECALL` in the memory file is left for another one. -/
def LeavesNoEcall (mem : InstrMem) (pcs : List Word) : Prop :=
  pcs.IsChain fun a b => a ≠ b → mem (wordAddr a) ≠ some ecallInstr

/-- As it is if the retired words before the `ECALL` are those of the memory file. -/
theorem leavesNoEcall_of_fromProgram {mem : InstrMem} (hprog : ∀ r ∈ rs, FromProgram mem r) :
    LeavesNoEcall mem ((beforeEcall rs).map (·.pc)) := by
  have hmem : ∀ r ∈ beforeEcall rs, mem (wordAddr r.pc) ≠ some ecallInstr := by
    intro r hr hw
    have hr' : r.instr ≠ ecallInstr := by simpa using List.mem_takeWhile_imp hr
    exact hr' (hprog r ((List.takeWhile_prefix _).subset hr) _ hw)
  rw [LeavesNoEcall, List.isChain_map]
  exact List.Pairwise.isChain (List.pairwise_of_forall_mem_list fun r hr _ _ _ => hmem r hr)

theorem leavesNoEcall_const {mem : InstrMem} {pcs : List Word} (h : ∀ b ∈ pcs, b = a) :
    LeavesNoEcall mem (a :: pcs) := by
  refine List.Pairwise.isChain (List.pairwise_of_forall_mem_list ?_)
  intro b hb c hc hne
  have hall : ∀ b ∈ a :: pcs, b = a := List.forall_mem_cons.mpr ⟨rfl, h⟩
  exact absurd ((hall b hb).trans (hall c hc).symm) hne

theorem stuckOnceRepeated_singleton : StuckOnceRepeated [a] := by
  rintro (_ | ⟨a', pre⟩) b post heq
  · cases heq
  · simp at heq

theorem stuckOnceRepeated_cons {b : Word} {pcs : List Word} (hne : a ≠ b) :
    StuckOnceRepeated (a :: b :: pcs) ↔ StuckOnceRepeated (b :: pcs) := by
  refine ⟨fun h pre c post heq => h (a :: pre) c post (congrArg (a :: ·) heq), ?_⟩
  rintro h (_ | ⟨a', pre⟩) c post heq
  · obtain ⟨rfl, htail⟩ := List.cons.inj heq
    obtain ⟨rfl, -⟩ := List.cons.inj htail
    exact absurd rfl hne
  · exact h pre c post (List.cons.inj heq).2

theorem stuckOnceRepeated_repeat {pcs : List Word} :
    StuckOnceRepeated (a :: a :: pcs) ↔ ∀ b ∈ pcs, b = a := by
  refine ⟨fun h => h [] a pcs rfl, fun h pre c post heq => ?_⟩
  -- all entries are `a`
  have hall : ∀ b ∈ a :: a :: pcs, b = a := by
    rintro b hb
    simp only [List.mem_cons] at hb
    obtain rfl | rfl | hb := hb
    · rfl
    · rfl
    · exact h b hb
  rw [heq] at hall
  have hc := hall c (by simp)
  intro b hb
  rw [hall b (by simp [hb]), hc]

theorem sample_ecall (hr : r.instr = ecallInstr) :
    (s.monitor.sample r).2 = none ∧ (s.monitor.sample r).1.stopped = true := by
  rw [FlowMonitor.sample, if_pos hr]
  split_ifs with hs
  · exact ⟨rfl, hs⟩
  · exact ⟨rfl, rfl⟩

theorem noFalseAlarm_ecall (hr : r.instr = ecallInstr) (hclean : ∀ p ∈ s.compared, p.1 = p.2) :
    NoFalseAlarm s (r :: rs) := by
  obtain ⟨hsample, hstopped⟩ := sample_ecall (s := s) hr
  rw [noFalseAlarm_cons, step_of_none hsample, hsample]
  exact ⟨fun tx h => (by cases h), noFalseAlarm_stopped hstopped hclean⟩

theorem noFalseAlarm_nil (hclean : ∀ p ∈ s.compared, p.1 = p.2) : NoFalseAlarm s [] :=
  ⟨hclean, fun pre r post h => by simp at h⟩

/-- A step to the pc that the trace has next is exact, unless it leaves an `ECALL` of the
memory file, and nothing else is. -/
theorem InStep.noFalseAlarm_ne {b c : Word} {rest' : List Word} (h : InStep s a rest)
    (hr : r.instr ≠ ecallInstr) (hpc : r.pc = b) (hne : a ≠ b) (hrest : rest = c :: rest') :
    NoFalseAlarm s (r :: rs) ↔
      s.predictor.instrMem (wordAddr a) ≠ some ecallInstr ∧ b = c ∧
        NoFalseAlarm (s.step r) rs := by
  have hsample := congrArg Prod.snd (h.sample_ne hr hpc hne)
  rw [noFalseAlarm_cons, hsample]
  constructor
  · rintro ⟨hfirst, hrun⟩
    have ha : s.predictor.instrMem (wordAddr a) ≠ some ecallInstr := by
      intro hecall
      obtain ⟨e, he, -⟩ := hfirst _ rfl
      rw [write_ecall ⟨a, b⟩ hecall] at he
      cases he
    obtain ⟨-, hcompared, -⟩ := h.step_ne hr hpc hne ha hrest
    -- a wrong comparison stays on record
    have hmem : ((⟨a, b⟩, ⟨a, c⟩) : FlowTx × FlowTx) ∈ ((s.step r).run rs).compared := by
      refine ((s.step r).compared_run rs).subset ?_
      rw [hcompared]
      simp
    exact ⟨ha, congrArg FlowTx.nextPc (hrun.noMismatch _ hmem), hrun⟩
  · rintro ⟨ha, -, hrun⟩
    obtain ⟨hwrite, hcompared, -⟩ := h.step_ne hr hpc hne ha hrest
    refine ⟨?_, hrun⟩
    rintro tx htx
    obtain rfl : (⟨a, b⟩ : FlowTx) = tx := Option.some.inj htx
    exact ⟨_, hwrite, hcompared⟩

/-- After a repetition the predictor is behind, and any other pc is a false alarm. -/
theorem InStep.noFalseAlarm_behind (h : InStep s a (a :: rest))
    (hclean : ∀ p ∈ s.compared, p.1 = p.2) :
    NoFalseAlarm s rs ↔ ∀ b ∈ (beforeEcall rs).map (·.pc), b = a := by
  induction rs generalizing s with
  | nil => exact ⟨fun _ b hb => (by cases hb), fun _ => noFalseAlarm_nil hclean⟩
  | cons r rs ih =>
    by_cases hr : r.instr = ecallInstr
    · rw [beforeEcall_ecall hr]
      exact ⟨fun _ b hb => (by cases hb), fun _ => noFalseAlarm_ecall hr hclean⟩
    rw [beforeEcall_cons hr, List.map_cons, List.forall_mem_cons]
    by_cases hpc : r.pc = a
    · obtain ⟨hstep, hin⟩ := h.step_repeat hr hpc
      have hsample := congrArg Prod.snd (h.sample hr)
      rw [if_neg (by simp [hpc])] at hsample
      have hih := ih hin (by rw [hstep]; exact hclean)
      rw [noFalseAlarm_cons, hih, hsample]
      exact ⟨fun hrun => ⟨hpc, hrun.2⟩, fun hall => ⟨fun tx htx => (by cases htx), hall.2⟩⟩
    · rw [h.noFalseAlarm_ne hr rfl (Ne.symm hpc) rfl]
      exact ⟨fun hrun => absurd hrun.2.1 hpc, fun hall => absurd hall.1 hpc⟩

/-- **A checker in step with the rest of the trace raises no false alarm exactly if the rest
of the run is stuck once a pc repeats and leaves no `ECALL` of the memory file.** -/
theorem InStep.noFalseAlarm_iff (h : InStep s a (rs.map (·.pc)))
    (hclean : ∀ p ∈ s.compared, p.1 = p.2) :
    NoFalseAlarm s rs ↔ StuckOnceRepeated (a :: (beforeEcall rs).map (·.pc)) ∧
      LeavesNoEcall s.predictor.instrMem (a :: (beforeEcall rs).map (·.pc)) := by
  induction rs generalizing s a with
  | nil =>
    exact ⟨fun _ => ⟨stuckOnceRepeated_singleton, .singleton a⟩,
      fun _ => noFalseAlarm_nil hclean⟩
  | cons r rs ih =>
    by_cases hr : r.instr = ecallInstr
    · rw [beforeEcall_ecall hr]
      exact ⟨fun _ => ⟨stuckOnceRepeated_singleton, .singleton a⟩,
        fun _ => noFalseAlarm_ecall hr hclean⟩
    rw [beforeEcall_cons hr, List.map_cons]
    rw [List.map_cons] at h
    by_cases hpc : r.pc = a
    · obtain ⟨hstep, hin⟩ := h.step_repeat hr hpc
      have hsample := congrArg Prod.snd (h.sample hr)
      rw [if_neg (by simp [hpc])] at hsample
      rw [hpc] at hin
      have hclean' : ∀ p ∈ (s.step r).compared, p.1 = p.2 := by
        rw [hstep]
        exact hclean
      rw [hpc, stuckOnceRepeated_repeat, noFalseAlarm_cons, hsample,
        hin.noFalseAlarm_behind hclean']
      refine ⟨fun hrun => ⟨hrun.2, leavesNoEcall_const ?_⟩,
        fun hrun => ⟨fun tx htx => (by cases htx), hrun.1⟩⟩
      exact List.forall_mem_cons.mpr ⟨rfl, hrun.2⟩
    · have hne : a ≠ r.pc := Ne.symm hpc
      rw [h.noFalseAlarm_ne hr rfl hne rfl, stuckOnceRepeated_cons hne, LeavesNoEcall,
        List.isChain_cons_cons]
      have hleave : (a ≠ r.pc → s.predictor.instrMem (wordAddr a) ≠ some ecallInstr) ↔
          s.predictor.instrMem (wordAddr a) ≠ some ecallInstr := imp_iff_right hne
      rw [hleave]
      by_cases ha : s.predictor.instrMem (wordAddr a) = some ecallInstr
      · exact ⟨fun hrun => absurd ha hrun.1, fun hrun => absurd ha hrun.2.1⟩
      obtain ⟨-, hcompared, hin⟩ := h.step_ne hr rfl hne ha rfl
      have hclean' : ∀ p ∈ (s.step r).compared, p.1 = p.2 := by
        intro p hp
        rw [hcompared, List.mem_append, List.mem_singleton] at hp
        obtain hp | rfl := hp
        · exact hclean p hp
        · rfl
      rw [ih (hin rfl) hclean', instrMem_step]
      exact ⟨fun ⟨ha, _, hstuck, hchain⟩ => ⟨hstuck, ha, hchain⟩,
        fun ⟨hstuck, ha, hchain⟩ => ⟨ha, rfl, hstuck, hchain⟩⟩

/-- At the start of a log that reaches `startPc` the checker is in step with what follows. -/
theorem inStep_start {mem : InstrMem} {boot t : List Word} (hboot : startPc ∉ boot) :
    InStep (start mem (boot ++ startPc :: t)) startPc t where
  running := rfl
  prev := rfl
  trace := by
    have hskip : ∀ pc ∈ boot, (pc != startPc) = true := by
      rintro pc hpc
      rw [bne_iff_ne]
      rintro rfl
      exact hboot hpc
    rw [start, List.drop_zero, List.dropWhile_append_of_pos hskip]
    rfl
  expected := rfl
  actual := rfl
  active := rfl

end FlowCheck

open FlowCheck

/-- **The flow checker raises no false alarm exactly if no pc that is retired twice in a row is
followed by another one before the ECALL**, and none with an `ECALL` in the memory file either.
The core retires the trace `startPc :: t` and the log has it from `startPc` on. -/
theorem flow_check_exact_iff {mem : InstrMem} {boot t : List Word} {rs : List Retirement}
    (hboot : startPc ∉ boot) (ht : rs.map (·.pc) = startPc :: t) :
    NoFalseAlarm (start mem (boot ++ startPc :: t)) rs ↔
      StuckOnceRepeated ((beforeEcall rs).map (·.pc)) ∧
        LeavesNoEcall mem ((beforeEcall rs).map (·.pc)) := by
  obtain ⟨r, rs, rfl, hpc, rfl⟩ := List.map_eq_cons_iff.mp ht
  have hclean : ∀ p ∈ (start mem (boot ++ startPc :: rs.map (·.pc))).compared, p.1 = p.2 := by
    intro p hp
    cases hp
  by_cases hr : r.instr = ecallInstr
  · rw [beforeEcall_ecall hr]
    refine ⟨fun _ => ⟨fun pre a post h => ?_, .nil⟩, fun _ => noFalseAlarm_ecall hr hclean⟩
    simp at h
  -- the first retirement has the pc the monitor starts with
  have hstart := @inStep_start mem boot (rs.map (·.pc)) hboot
  obtain ⟨hstep, hin⟩ := hstart.step_repeat hr hpc
  have hsample := congrArg Prod.snd (hstart.sample hr)
  rw [if_neg (by simp [hpc])] at hsample
  rw [beforeEcall_cons hr, List.map_cons, hpc, noFalseAlarm_cons, hsample,
    hin.noFalseAlarm_iff (by rw [hstep]; exact hclean), instrMem_step]
  exact ⟨fun h => h.2, fun h => ⟨fun tx htx => (by cases htx), h⟩⟩

/-- Retirements of `addi x0, x0, 0`. -/
def nopRetirements (pcs : List Word) : List Retirement :=
  pcs.map fun pc => { pc := pc, instr := 0x00000013#32, write := none }

/-- A memory file full of `addi x0, x0, 0`. -/
def nopMem : InstrMem := fun _ => some 0x00000013#32

theorem fromProgram_nop (pcs : List Word) : ∀ r ∈ nopRetirements pcs, FromProgram nopMem r := by
  intro r hr w hw
  obtain ⟨pc, -, rfl⟩ := List.mem_map.mp hr
  exact Option.some.inj hw

/-- A loop, after one line of the boot code. -/
theorem flow_check_exact_loop :
    NoFalseAlarm (start nopMem [0x1000#32, startPc, 0x80000004#32, startPc, 0x80000004#32])
      (nopRetirements [startPc, 0x80000004#32, startPc, 0x80000004#32]) := by
  have hiff := @flow_check_exact_iff nopMem [0x1000#32] [0x80000004#32, startPc, 0x80000004#32]
    (nopRetirements [startPc, 0x80000004#32, startPc, 0x80000004#32]) (by decide) rfl
  have hstuck : StuckOnceRepeated [startPc, 0x80000004#32, startPc, 0x80000004#32] := by
    iterate 3 rw [stuckOnceRepeated_cons (by decide)]
    exact stuckOnceRepeated_singleton
  exact hiff.mpr ⟨hstuck, leavesNoEcall_of_fromProgram (fromProgram_nop _)⟩

/-- A pc retired twice in a row and then another one: the transaction from the first pc to the
other is compared with a prediction of the repetition. -/
theorem flow_check_false_alarm :
    ¬ ∀ (mem : InstrMem) (boot t : List Word) (rs : List Retirement), startPc ∉ boot →
      (∀ r ∈ rs, FromProgram mem r) → rs.map (·.pc) = startPc :: t →
      NoFalseAlarm (start mem (boot ++ startPc :: t)) rs := by
  intro h
  have hrun := (h nopMem [] [startPc, 0x80000004#32]
    (nopRetirements [startPc, startPc, 0x80000004#32]) (by decide) (fromProgram_nop _)
    rfl).noMismatch
  revert hrun
  decide

end RiscvV2
