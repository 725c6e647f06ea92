import RiscvV2.Wrapper

/-!
# Software reset and the peripheral bus

The processing system may put the core in reset at any time through the control register, and
the master of the peripheral bus is reset with it. A reset that comes in the middle of a
transaction withdraws an offer or leaves a response behind, and the response is taken for the
answer to the first access after the restart. `transactions_survive` says that nothing else
goes wrong: if every reset finds the master between two transactions, all offers stand and all
accesses get their own responses.

The record keeps the transfers of the bus across resets of the core, unlike the record of the
master, which begins anew with each of them. It is split at the access on the data port: what
came before it, and what the master has done for it. Whether a response belongs to the access is
then a matter of counting: it answers the first command that has had no response yet.

The two runs at the end begin alike. In one the load ends before the reset; in the other the
reset comes while its response is due, and the load after the restart takes it.
-/

namespace RiscvV2

open Handshake

variable {n : ℕ} {w : WrapperConfig}

/-! ## Counting transfers

Responses come in the order of their commands, so to know which command a response answers it is
enough to count both. -/

/-- A transfer on AW. -/
def BusEvent.isAw : BusEvent → Bool
  | .aw _ => true
  | _ => false

/-- A transfer on W. -/
def BusEvent.isW : BusEvent → Bool
  | .w _ _ => true
  | _ => false

/-- A transfer on B. -/
def BusEvent.isB : BusEvent → Bool
  | .b => true
  | _ => false

/-- A transfer on AR. -/
def BusEvent.isAr : BusEvent → Bool
  | .ar _ => true
  | _ => false

/-- A transfer on R. -/
def BusEvent.isR : BusEvent → Bool
  | .r _ => true
  | _ => false

/-- No response is outstanding. -/
structure AllAnswered (es : List BusEvent) : Prop where
  addresses : es.countP BusEvent.isAw = es.countP BusEvent.isB
  data : es.countP BusEvent.isW = es.countP BusEvent.isB
  reads : es.countP BusEvent.isAr = es.countP BusEvent.isR

theorem allAnswered_nil : AllAnswered [] := ⟨rfl, rfl, rfl⟩

theorem AllAnswered.append {es es' : List BusEvent} (h : AllAnswered es)
    (h' : AllAnswered es') : AllAnswered (es ++ es') := by
  refine ⟨?_, ?_, ?_⟩
  · rw [List.countP_append, List.countP_append, h.addresses, h'.addresses]
  · rw [List.countP_append, List.countP_append, h.data, h'.data]
  · rw [List.countP_append, List.countP_append, h.reads, h'.reads]

/-- A whole transaction leaves no response outstanding. -/
theorem Transaction.allAnswered {q : MasterRequest} {v : Word} {tx : List BusEvent}
    (h : Transaction q v tx) : AllAnswered tx := by
  cases h with
  | writeAwFirst => exact ⟨rfl, rfl, rfl⟩
  | writeWFirst => exact ⟨rfl, rfl, rfl⟩
  | read => exact ⟨rfl, rfl, rfl⟩

/-! ## The peripheral bus across resets -/

/-- The transfers since `aresetn` was released: those made before the access on the data port
came, and those made since. -/
structure PeriphLog where
  before : List BusEvent := []
  own : List BusEvent := []

/-- All transfers so far. -/
def PeriphLog.bus (g : PeriphLog) : List BusEvent := g.before ++ g.own

/-- The record after a cycle: a completed access and a reset both clear the data port. -/
def periphRecord (w : WrapperConfig) (g : PeriphLog) (s : Wrapper) (i : WrapperIn n) :
    PeriphLog :=
  if cpuReset s i || !dmemSelAxi w s || dmemReady w s i then
    ⟨g.bus ++ periphEvents w s i, []⟩
  else ⟨g.before, g.own ++ periphEvents w s i⟩

/-- `aresetn` is high, and the peripheral responds only to commands it has taken. -/
def periphAllowed (g : PeriphLog) (i : WrapperIn n) : Prop :=
  i.aresetn = true ∧
    (i.mAxiPeriphBvalid = true →
      g.bus.countP BusEvent.isB < g.bus.countP BusEvent.isAw ∧
      g.bus.countP BusEvent.isB < g.bus.countP BusEvent.isW) ∧
    (i.mAxiPeriphRvalid = true → g.bus.countP BusEvent.isR < g.bus.countP BusEvent.isAr)

instance (g : PeriphLog) (i : WrapperIn n) : Decidable (periphAllowed g i) :=
  inferInstanceAs (Decidable (_ ∧ (_ → _) ∧ (_ → _)))

/-- If the core is in reset, the master is idle or takes the response that ends its
transaction. -/
def ResetBetween (s : Wrapper) (i : WrapperIn n) : Prop :=
  cpuReset s i = true →
    s.master.state = .idle ∨
    (s.master.state = .writeResp ∧ i.mAxiPeriphBvalid = true) ∨
    (s.master.state = .readData ∧ i.mAxiPeriphRvalid = true)

instance (s : Wrapper) (i : WrapperIn n) : Decidable (ResetBetween s i) :=
  inferInstanceAs (Decidable (_ → _ ∨ _ ∧ _ ∨ _ ∧ _))

/-- The wrapper with a peripheral, and resets of the core at any time. -/
def periphSystem (w : WrapperConfig) :
    Clocked (Clocked.Recorded Wrapper PeriphLog) (WrapperIn w.numExtInterrupts) :=
  (wrapperSystem w).record {} (fun g _ i => periphAllowed g i) (periphRecord w)

/-- The same with resets between transactions only. -/
def betweenSystem (w : WrapperConfig) :
    Clocked (Clocked.Recorded Wrapper PeriphLog) (WrapperIn w.numExtInterrupts) :=
  (wrapperSystem w).record {} (fun g s i => periphAllowed g i ∧ ResetBetween s i)
    (periphRecord w)

instance (t : Clocked.Recorded Wrapper PeriphLog) (i : WrapperIn w.numExtInterrupts) :
    Decidable ((periphSystem w).allowed t i) :=
  inferInstanceAs (Decidable (True ∧ periphAllowed t.log i))

instance (t : Clocked.Recorded Wrapper PeriphLog) (i : WrapperIn w.numExtInterrupts) :
    Decidable ((betweenSystem w).allowed t i) :=
  inferInstanceAs (Decidable (True ∧ periphAllowed t.log i ∧ ResetBetween t.sys i))

/-- The next response answers a command made for the access on the data port: responses come
in the order of their commands. -/
def AnswersOwn (g : PeriphLog) (command response : BusEvent → Bool) : Prop :=
  g.before.countP command ≤ g.bus.countP response ∧
    g.bus.countP response < g.bus.countP command

instance (g : PeriphLog) (command response : BusEvent → Bool) :
    Decidable (AnswersOwn g command response) :=
  inferInstanceAs (Decidable (_ ∧ _))

/-- **Peripheral transactions survive**: offers stand until they are taken, a load gets the
word of the R handshake that answers its own AR, and a store ends with the B handshake that
answers its own AW and W. -/
structure TransactionsSurvive (w : WrapperConfig) (g : PeriphLog) (s : Wrapper)
    (i : WrapperIn n) : Prop where
  offers : ∀ i' : MasterIn,
    (masterAw s.master (masterIn w s i)).Held (masterAw (wrapperNext w s i).master i') ∧
    (masterW s.master (masterIn w s i)).Held (masterW (wrapperNext w s i).master i') ∧
    (masterAr s.master (masterIn w s i)).Held (masterAr (wrapperNext w s i).master i')
  load : dmemSelAxi w s = true → dmemReadEn s.core.pipe = true → dmemReady w s i = true →
    (masterR s.master (masterIn w s i)).transfer = some (dmemReadData w s i) ∧
    g.own = [.ar (alignedWordAddr (dmemAddr s.core.pipe))] ∧
    AnswersOwn g BusEvent.isAr BusEvent.isR
  store : dmemSelAxi w s = true → dmemWriteEn s.core.pipe = true → dmemReady w s i = true →
    (masterB s.master (masterIn w s i)).transfer = some () ∧
    (g.own = [.aw (alignedWordAddr (dmemAddr s.core.pipe)),
        .w (dmemWriteData s.core.pipe) (dmemWstrb s.core.pipe)] ∨
      g.own = [.w (dmemWriteData s.core.pipe) (dmemWstrb s.core.pipe),
        .aw (alignedWordAddr (dmemAddr s.core.pipe))]) ∧
    AnswersOwn g BusEvent.isAw BusEvent.isB ∧ AnswersOwn g BusEvent.isW BusEvent.isB

/-! ## Resets between transactions

With a reset between two transactions only, all commands before the access on the port have had
their responses, and the response that comes is its own. -/

/-- The invariant: what was begun before the access on the port came is finished, and the
transfers since are the progress of its transaction. -/
structure PeriphInv (w : WrapperConfig) (s : Wrapper) (g : PeriphLog) : Prop where
  port : PortInv w s
  answered : AllAnswered g.before
  serves : MasterServes w s g.own

variable {s : Wrapper} {g : PeriphLog} {i : WrapperIn n}

/-- Without an access of the peripheral region the bus is quiet. -/
theorem MasterServes.quiet {cur : List BusEvent} (h : MasterServes w s cur)
    (hsel : dmemSelAxi w s = false) : cur = [] ∧ periphEvents w s i = [] := by
  obtain ⟨held, hp, hport⟩ := h
  have hnone : held = none := by
    obtain hnone | hsome := hport
    · exact hnone
    · rw [hsome, ← Option.not_isSome_iff_eq_none, portRequest_isSome, hsel]
      exact Bool.false_ne_true
  subst hnone
  obtain ⟨hidle, hcur⟩ := hp.none_held
  exact ⟨hcur, busEvents_idle hidle _⟩

/-- The request the master is answering is the one on the port. -/
theorem MasterServes.answering {cur : List BusEvent} (h : MasterServes w s cur)
    (hr : reqReady s.master (masterIn w s i) = true) :
    ∃ q, portRequest w s = some q ∧ MasterProgress s.master (some q) cur := by
  obtain ⟨held, hp, hport⟩ := h
  obtain hnone | hsome := hport
  · subst hnone
    obtain ⟨hidle, -⟩ := hp.none_held
    simp [reqReady, hidle] at hr
  · cases held with
    | none =>
      obtain ⟨hidle, -⟩ := hp.none_held
      simp [reqReady, hidle] at hr
    | some q => exact ⟨q, hsome.symm, hp⟩

/-- The response ends the transaction. -/
theorem MasterServes.finished {cur : List BusEvent} (h : MasterServes w s cur)
    (hr : reqReady s.master (masterIn w s i) = true) :
    AllAnswered (cur ++ periphEvents w s i) := by
  obtain ⟨q, -, hp⟩ := h.answering hr
  cases q with
  | read a =>
    obtain ⟨hcur, hes, -⟩ := hp.read_answer hr
    rw [hcur, periphEvents, hes]
    exact ⟨rfl, rfl, rfl⟩
  | write a d m =>
    obtain ⟨hcur, hes, -⟩ := hp.write_answer hr
    rw [periphEvents, hes]
    obtain hcur | hcur := hcur
    · rw [hcur]
      exact ⟨rfl, rfl, rfl⟩
    · rw [hcur]
      exact ⟨rfl, rfl, rfl⟩

/-- A reset between transactions finds them all finished after its cycle. -/
theorem MasterServes.reset {cur : List BusEvent} (h : MasterServes w s cur)
    (hbetween : ResetBetween s i) (hreset : cpuReset s i = true) :
    AllAnswered (cur ++ periphEvents w s i) := by
  obtain hidle | ⟨hs, hv⟩ | ⟨hs, hv⟩ := hbetween hreset
  · obtain ⟨held, hp, -⟩ := h
    have hcur : cur = [] := by
      cases hp with
      | idle => rfl
      | writeCmd hs | awFirst hs | wFirst hs | readAddr hs | readData hs =>
        cases hidle.symm.trans hs
    rw [hcur, periphEvents, busEvents_idle hidle]
    exact allAnswered_nil
  · exact h.finished (by simp [reqReady, masterIn, hs, hv])
  · exact h.finished (by simp [reqReady, masterIn, hs, hv])

/-- **Step lemma**: a cycle whose reset, if any, falls between transactions keeps the
invariant. -/
theorem periphInv_next (h : PeriphInv w s g) (hbetween : ResetBetween s i) :
    PeriphInv w (wrapperNext w s i) (periphRecord w g s i) := by
  have hport := wrapperNext_portInv (i := i) h.port
  -- the record when the port is cleared
  have hclear : AllAnswered (g.own ++ periphEvents w s i) →
      AllAnswered (g.bus ++ periphEvents w s i) := by
    intro hown
    rw [PeriphLog.bus, List.append_assoc]
    exact h.answered.append hown
  cases hreset : cpuReset s i with
  | true =>
    rw [periphRecord, if_pos (by simp [hreset])]
    -- the only use of the hypothesis on resets
    exact ⟨hport, hclear (h.serves.reset hbetween hreset), masterServes_of_cpuReset hreset⟩
  | false =>
    cases serveCycle h.port hreset h.serves with
    | continues hr hnext =>
      cases hsel : dmemSelAxi w s with
      | false =>
        obtain ⟨hown, hes⟩ := h.serves.quiet (i := i) hsel
        rw [hown, hes] at hnext
        rw [periphRecord, if_pos (by simp [hsel])]
        refine ⟨hport, hclear ?_, hnext⟩
        rw [hown, hes]
        exact allAnswered_nil
      | true =>
        have hready : dmemReady w s i = false := by rw [dmemReady, if_pos hsel, hr]
        rw [periphRecord, if_neg (by simp [hreset, hsel, hready])]
        exact ⟨hport, h.answered, hnext⟩
    | answers hr hq htx hnext =>
      have hready : dmemReady w s i = true := by
        rw [dmemReady, if_pos (portRequest_eq_some hq).1, hr]
      rw [periphRecord, if_pos (by simp [hready])]
      exact ⟨hport, hclear htx.allAnswered, hnext⟩

/-- **Run lemma.** -/
theorem periphInv_of_reachable {t : Clocked.Recorded Wrapper PeriphLog}
    (ht : (betweenSystem w).Reachable t) : PeriphInv w t.sys t.log := by
  refine ht.recorded (I := PeriphInv w) ?_ ?_
  · rintro s rfl
    exact ⟨portInv_reset w, allAnswered_nil, none, .idle rfl, .inl rfl⟩
  · intro s g i _ _ hok h
    exact periphInv_next h hok.2

/-- With all earlier transactions answered, a response answers a command of the access on the
port. -/
theorem answersOwn_of_answered {command response : BusEvent → Bool}
    (hbefore : g.before.countP command = g.before.countP response)
    (hcommand : g.own.countP command = 1) (hresponse : g.own.countP response = 0) :
    AnswersOwn g command response := by
  rw [AnswersOwn, PeriphLog.bus, List.countP_append, List.countP_append]
  omega

/-- **Peripheral transactions survive resets that come between them**, in every run and with
any timing of the peripheral. -/
theorem transactions_survive (w : WrapperConfig) {t : Clocked.Recorded Wrapper PeriphLog}
    (ht : (betweenSystem w).Reachable t) {i : WrapperIn w.numExtInterrupts}
    (hi : (betweenSystem w).allowed t i) : TransactionsSurvive w t.log t.sys i := by
  obtain ⟨-, -, hbetween⟩ := hi
  have h := periphInv_of_reachable ht
  refine ⟨fun i' => ?_, fun hsel hread hready => ?_, fun hsel hwrite hready => ?_⟩
  · cases hreset : cpuReset t.sys i with
    | false => exact master_held (i := masterIn w t.sys i) hreset i'
    | true =>
      -- in the states a reset may find, the master offers nothing
      have hquiet : masterAwvalid t.sys.master = false ∧ masterWvalid t.sys.master = false ∧
          masterArvalid t.sys.master = false := by
        obtain hs | ⟨hs, -⟩ | ⟨hs, -⟩ := hbetween hreset
        · simp [masterAwvalid, masterWvalid, masterArvalid, hs]
        · simp [masterAwvalid, masterWvalid, masterArvalid, hs]
        · simp [masterAwvalid, masterWvalid, masterArvalid, hs]
      obtain ⟨haw, hw, har⟩ := hquiet
      refine ⟨fun hv => ?_, fun hv => ?_, fun hv => ?_⟩
      · exact absurd (haw.symm.trans hv) Bool.false_ne_true
      · exact absurd (hw.symm.trans hv) Bool.false_ne_true
      · exact absurd (har.symm.trans hv) Bool.false_ne_true
  · have hr : reqReady t.sys.master (masterIn w t.sys i) = true := by
      rwa [dmemReady, if_pos hsel] at hready
    have hwrite : dmemWriteEn t.sys.core.pipe = false := by
      by_contra hw
      rw [h.port.not_both (Bool.eq_true_of_not_eq_false hw)] at hread
      cases hread
    obtain ⟨q, hq, hp⟩ := h.serves.answering hr
    rw [portRequest, if_pos hsel, if_neg (by simp [hwrite])] at hq
    obtain rfl := Option.some.inj hq
    obtain ⟨hown, -, htransfer⟩ := hp.read_answer hr
    refine ⟨?_, hown, answersOwn_of_answered h.answered.reads ?_ ?_⟩
    · rw [htransfer, dmemReadData, if_pos hsel]
      rfl
    · rw [hown]
      rfl
    · rw [hown]
      rfl
  · have hr : reqReady t.sys.master (masterIn w t.sys i) = true := by
      rwa [dmemReady, if_pos hsel] at hready
    obtain ⟨q, hq, hp⟩ := h.serves.answering hr
    rw [portRequest, if_pos hsel, if_pos hwrite] at hq
    obtain rfl := Option.some.inj hq
    obtain ⟨hown, -, htransfer⟩ := hp.write_answer hr
    refine ⟨htransfer, hown, answersOwn_of_answered h.answered.addresses ?_ ?_,
      answersOwn_of_answered h.answered.data ?_ ?_⟩
    all_goals
      obtain hown | hown := hown
      · rw [hown]
        rfl
      · rw [hown]
        rfl

/-! ## Runs with and without a reset in the middle of a read -/

/-- A cycle with a word from the instruction memory. -/
def fetched (word : Word) : WrapperIn 32 := { sAxiCtrlBready := true, bramImemDout := word }

/-- The same, with a write of the control register offered by the processing system. -/
def controlWrite (data word : Word) : WrapperIn 32 :=
  { fetched word with
    sAxiCtrlAwvalid := true, sAxiCtrlWvalid := true, sAxiCtrlWdata := data, sAxiCtrlWstrb := 0xf#4 }

/-- The core is released and runs `lui x1, 0x10000` and `lw x2, 0(x1)`. -/
def loadInputs : List (WrapperIn 32) :=
  [controlWrite 0#32 0#32, controlWrite 0#32 0#32, fetched 0#32, fetched 0x100000b7#32,
    fetched 0x100000b7#32, fetched 0x0000a103#32, fetched 0x0000a103#32, fetched 0x00000013#32]

/-- The load has its AR taken and waits for the response. -/
def readInputs : List (WrapperIn 32) :=
  loadInputs ++
    [fetched 0x00000013#32, { fetched 0x00000013#32 with mAxiPeriphArready := true }]

/-- The cycle of the response. -/
def readResponse (data : Word) : WrapperIn 32 :=
  { fetched 0x00000013#32 with mAxiPeriphRvalid := true, mAxiPeriphRdata := data }

theorem transactions_survive_load :
    let t := (betweenSystem {}).after ⟨wrapperReset {}, {}⟩ readInputs
    dmemReady {} t.sys (readResponse 7#32) = true ∧
      TransactionsSurvive {} t.log t.sys (readResponse 7#32) := by
  intro t
  have hinit : (betweenSystem {}).Reachable ⟨wrapperReset {}, {}⟩ := .init ⟨rfl, rfl⟩
  have hreach : (betweenSystem {}).Reachable t := hinit.after_allows readInputs (by decide)
  exact ⟨by decide, transactions_survive {} hreach (by decide)⟩

/-- The processing system writes the reset while the AR of a load is being taken. The response
is still due when the core is released again, and its load has its own AR taken. -/
def staleInputs : List (WrapperIn 32) :=
  loadInputs ++
    [controlWrite 1#32 0x00000013#32,
      { controlWrite 1#32 0x00000013#32 with mAxiPeriphArready := true },
      fetched 0x00000013#32] ++
    readInputs

/-- The load after the restart gets the response to the AR of the load before it. -/
theorem response_after_reset :
    ∃ (w : WrapperConfig) (t : Clocked.Recorded Wrapper PeriphLog)
      (i : WrapperIn w.numExtInterrupts),
      (periphSystem w).Reachable t ∧ (periphSystem w).allowed t i ∧
        ¬ TransactionsSurvive w t.log t.sys i := by
  refine ⟨{}, (periphSystem {}).after ⟨wrapperReset {}, {}⟩ staleInputs, readResponse 7#32,
    ?_, ?_, fun h => ?_⟩
  · have hinit : (periphSystem {}).Reachable ⟨wrapperReset {}, {}⟩ := .init ⟨rfl, rfl⟩
    exact hinit.after_allows staleInputs (by decide)
  · decide
  · obtain ⟨-, -, hanswers⟩ := h.load (by decide) (by decide) (by decide)
    revert hanswers
    decide

end RiscvV2
