import RiscvV2.Stages

/-!
# Phases of the fetch unit

The three flags of the fetch unit are never set together, so it is idle, waiting for a
response, holding one, or waiting for one it will throw away. As in `Stages`, one lemma for
each situation says what the registers become. Together with `Staged` this gives the
invariant of the whole core, `CoreStaged`.

The two invariants need each other. The back end stays staged because IF/ID is only loaded when
it is empty, which holds because the fetch unit has nothing to deliver while IF/ID is occupied;
and the fetch unit has nothing to deliver because it asks for an instruction only in a cycle in
which IF/ID moves on. `coreNext_staged` proves both in one step lemma, for arbitrary inputs and
further resets, and the run lemma is then the induction over reachable states.
-/

namespace RiscvV2

variable {n : ℕ} {c : Config} {p : Pipe} {r : Bool}

/-! ## Situations of the fetch unit -/

/-- Nothing is requested and nothing is held. -/
structure Fetch.Idle (f : Fetch) : Prop where
  pending : f.ifPendingValid = false
  buf : f.ifBufValid = false
  discard : f.ifDiscardPending = false

/-- A response is due. -/
structure Fetch.Waiting (f : Fetch) : Prop where
  pending : f.ifPendingValid = true
  buf : f.ifBufValid = false
  discard : f.ifDiscardPending = false

/-- A response sits in the buffer. -/
structure Fetch.Buffered (f : Fetch) : Prop where
  pending : f.ifPendingValid = false
  buf : f.ifBufValid = true
  discard : f.ifDiscardPending = false

/-- A response is due and will be thrown away. -/
structure Fetch.Discarding (f : Fetch) : Prop where
  pending : f.ifPendingValid = false
  buf : f.ifBufValid = false
  discard : f.ifDiscardPending = true

/-- The flags are never set together. -/
inductive FetchPhase (f : Fetch) : Prop
  | idle (h : f.Idle)
  | waiting (h : f.Waiting)
  | buffered (h : f.Buffered)
  | discarding (h : f.Discarding)

/-- Neither memory nor the back end holds the front end. -/
def frontMoves (p : Pipe) (r : Bool) : Bool := !memStall p r && !stallIf p

/-! ## The registers after each situation

`frontMoves` is the one condition of the back end that matters here: with it the fetch unit
advances, and without it a response has to wait in the buffer. -/

variable {s : Core} {i : CoreIn n}

theorem memStall_of_exRedirect {target : Word} (hr : exRedirect c p r = some target) :
    memStall p r = false := by
  have hf := exFires_of_exRedirect (c := c) (p := p) (r := r) (by rw [hr]; rfl)
  exact (exFires_eq_true.mp hf).1

theorem ifAccept_of_redirect {target : Word}
    (hr : exRedirect c s.pipe i.dmemReady = some target) : ifAccept c s i = false := by
  simp [ifAccept, hr]

theorem imemReq_of_redirect {target : Word}
    (hr : exRedirect c s.pipe i.dmemReady = some target) : imemReq c s i = false := by
  simp [imemReq, hr]

/-- A redirect empties the fetch unit; an unanswered request is left to be discarded. -/
theorem fetchNext_redirect {target : Word}
    (hr : exRedirect c s.pipe i.dmemReady = some target) :
    fetchNext c s i =
      { s.fetch with
        pcF := target
        ifBufValid := false
        ifPendingValid := false
        ifDiscardPending := s.fetch.ifPendingValid && !i.imemReady } := by
  simp [fetchNext, pcFNext, hr, memStall_of_exRedirect hr]

theorem fetchNext_pcF : (fetchNext c s i).pcF = pcFNext c s i := by
  rw [fetchNext]
  split <;> rfl

theorem pcFNext_of_none (hr : exRedirect c s.pipe i.dmemReady = none) :
    pcFNext c s i = if ifAccept c s i then s.fetch.pcF + 4#32 else s.fetch.pcF := by
  simp only [pcFNext, hr]
  split_ifs with hs ha
  · simp [ifAccept, hs] at ha
  all_goals rfl

theorem ifAccept_of_none (hr : exRedirect c s.pipe i.dmemReady = none) :
    ifAccept c s i =
      (frontMoves s.pipe i.dmemReady && ifRespValid s.fetch i.imemReady) := by
  simp [ifAccept, frontMoves, hr]

theorem ifAccept_idle (h : s.fetch.Idle) : ifAccept c s i = false := by
  simp [ifAccept, ifRespValid, ifLiveRespValid, h.pending, h.buf]

theorem imemReq_idle (hr : exRedirect c s.pipe i.dmemReady = none) (h : s.fetch.Idle) :
    imemReq c s i = (!i.reset && frontMoves s.pipe i.dmemReady) := by
  simp [imemReq, frontMoves, hr, ifRespValid, ifLiveRespValid, h.pending, h.buf, h.discard,
    Bool.and_assoc]

theorem fetchNext_idle (hr : exRedirect c s.pipe i.dmemReady = none) (h : s.fetch.Idle) :
    fetchNext c s i = { s.fetch with ifPendingValid := imemReq c s i } := by
  have ha := ifAccept_idle (c := c) (i := i) h
  ext1 <;> simp [fetchNext, hr, pcFNext_of_none hr, ha, ifBufFill, h.pending, h.buf, h.discard]

theorem imemReq_waiting (h : s.fetch.Waiting) : imemReq c s i = false := by
  simp [imemReq, h.pending]

theorem ifAccept_waiting (hr : exRedirect c s.pipe i.dmemReady = none) (h : s.fetch.Waiting) :
    ifAccept c s i = (frontMoves s.pipe i.dmemReady && i.imemReady) := by
  simp [ifAccept_of_none hr, ifRespValid, ifLiveRespValid, h.pending, h.buf, h.discard]

/-- A response goes to IF/ID if the front end moves and to the buffer if not. -/
theorem fetchNext_waiting (hr : exRedirect c s.pipe i.dmemReady = none)
    (h : s.fetch.Waiting) :
    fetchNext c s i =
      if i.imemReady then
        if frontMoves s.pipe i.dmemReady then
          { s.fetch with pcF := s.fetch.pcF + 4#32, ifPendingValid := false }
        else
          { s.fetch with
            ifPendingValid := false
            ifBufValid := true
            ifBufInstr := i.imemInstr
            ifBufPc := i.imemRespPc }
      else s.fetch := by
  have ha := ifAccept_waiting hr h
  have hq := imemReq_waiting (c := c) (i := i) h
  cases hm : frontMoves s.pipe i.dmemReady <;> cases hi : i.imemReady <;> ext1 <;>
    simp [fetchNext, hr, pcFNext_of_none hr, ha, hq, ifBufFill, ifLiveRespValid, h.pending,
      h.buf, h.discard, hm, hi]

theorem ifAccept_buffered (hr : exRedirect c s.pipe i.dmemReady = none)
    (h : s.fetch.Buffered) : ifAccept c s i = frontMoves s.pipe i.dmemReady := by
  simp [ifAccept_of_none hr, ifRespValid, h.buf]

theorem imemReq_buffered (h : s.fetch.Buffered) : imemReq c s i = false := by
  simp [imemReq, ifRespValid, h.buf]

theorem fetchNext_buffered (hr : exRedirect c s.pipe i.dmemReady = none)
    (h : s.fetch.Buffered) :
    fetchNext c s i =
      if frontMoves s.pipe i.dmemReady then
        { s.fetch with pcF := s.fetch.pcF + 4#32, ifBufValid := false }
      else s.fetch := by
  have ha := ifAccept_buffered hr h
  have hq := imemReq_buffered (c := c) (i := i) h
  cases hm : frontMoves s.pipe i.dmemReady <;> ext1 <;>
    simp [fetchNext, hr, pcFNext_of_none hr, ha, hq, ifBufFill, h.pending, h.buf, h.discard, hm]

theorem ifAccept_discarding (h : s.fetch.Discarding) : ifAccept c s i = false := by
  simp [ifAccept, ifRespValid, ifLiveRespValid, h.pending, h.buf]

theorem imemReq_discarding (h : s.fetch.Discarding) : imemReq c s i = false := by
  simp [imemReq, h.discard]

theorem fetchNext_discarding (hr : exRedirect c s.pipe i.dmemReady = none)
    (h : s.fetch.Discarding) :
    fetchNext c s i = { s.fetch with ifDiscardPending := !i.imemReady } := by
  have ha := ifAccept_discarding (c := c) (i := i) h
  have hq := imemReq_discarding (c := c) (i := i) h
  ext1 <;> simp [fetchNext, hr, pcFNext_of_none hr, ha, hq, ifBufFill, h.pending, h.buf,
    h.discard]

/-! ## The invariant of the core

Four situations of the fetch unit and two of the cycle, with and without a redirect, make up the
cases of the step lemma. The equation of the situation says what the flags become, and what is
left is to see that IF/ID and the fetch unit are not both occupied afterwards. -/

/-- The back end is staged, the fetch unit is in one of its four situations, and it holds
nothing while IF/ID is occupied or while a response is still to be discarded. -/
structure CoreStaged (s : Core) : Prop where
  pipe : Staged s.pipe
  fetch : FetchPhase s.fetch
  front : s.pipe.ifId.valid = true → s.fetch.Idle
  quiet : s.fetch.Discarding → s.pipe.ifId.valid = false ∧ s.pipe.idEx.valid = false

theorem coreStaged_reset (c : Config) : CoreStaged (coreReset c) where
  pipe := staged_reset
  fetch := .idle ⟨rfl, rfl, rfl⟩
  front _ := ⟨rfl, rfl, rfl⟩
  quiet _ := ⟨rfl, rfl⟩

/-- A response is only accepted into an empty IF/ID. -/
theorem CoreStaged.accept (h : CoreStaged s) (ha : ifAccept c s i = true) :
    s.pipe.ifId.valid = false := by
  by_contra hv
  rw [ifAccept_idle (h.front (Bool.eq_true_of_not_eq_false hv))] at ha
  cases ha

/-- With EX empty there is no redirect. -/
theorem exRedirect_of_idEx_invalid (hEx : p.idEx.valid = false) : exRedirect c p r = none :=
  exRedirect_of_not_fires (by simp [exFires, hEx])

/-- An occupied IF/ID comes from an occupied one that waits for memory, or from a response
accepted in this cycle. -/
theorem CoreStaged.ifId_next (h : CoreStaged s) (hreset : i.reset = false)
    (hv : (coreNext c s i).pipe.ifId.valid = true) :
    (frontMoves s.pipe i.dmemReady = false ∧ s.fetch.Idle) ∨ ifAccept c s i = true := by
  rw [coreNext_pipe hreset] at hv
  rcases ifId_of_next h.pipe hv with ⟨hs, hId⟩ | ⟨-, ha, -⟩
  · left
    simp only [pipeIn_dmemReady] at hs
    exact ⟨by simp [frontMoves, hs], h.front hId⟩
  · exact .inr ha

/-- After a redirect IF/ID and EX are empty. -/
theorem CoreStaged.redirect_next (h : CoreStaged s) (hreset : i.reset = false)
    {target : Word} (hr : exRedirect c s.pipe i.dmemReady = some target) :
    (coreNext c s i).pipe.ifId.valid = false ∧ (coreNext c s i).pipe.idEx.valid = false := by
  have hf := exFires_of_exRedirect (c := c) (p := s.pipe) (r := i.dmemReady) (by rw [hr]; rfl)
  obtain ⟨hs, hm, hEx⟩ := exFires_eq_true.mp hf
  rw [coreNext_pipe hreset, pipeNext_leave h.pipe hEx hm]
  simp [hr]

/-- **Step lemma**: every cycle, reset or not and whatever the inputs, keeps the core
staged. -/
theorem coreNext_staged (h : CoreStaged s) : CoreStaged (coreNext c s i) := by
  cases hreset : i.reset with
  | true =>
    rw [coreNext_of_reset hreset]
    exact coreStaged_reset c
  | false =>
    have hpipe : Staged (coreNext c s i).pipe := by
      rw [coreNext_pipe hreset]
      exact pipeNext_staged h.pipe h.accept
    have hId := h.ifId_next (c := c) (i := i) hreset
    have hfetch : (coreNext c s i).fetch = fetchNext c s i := coreNext_fetch hreset
    cases hr : exRedirect c s.pipe i.dmemReady with
    | some target =>
      obtain ⟨hIdN, hExN⟩ := h.redirect_next hreset hr
      rw [fetchNext_redirect hr] at hfetch
      refine ⟨hpipe, ?_, fun hv => ?_, fun _ => ⟨hIdN, hExN⟩⟩
      · rw [hfetch]
        cases hd : s.fetch.ifPendingValid && !i.imemReady with
        | false => exact .idle ⟨rfl, rfl, rfl⟩
        | true => exact .discarding ⟨rfl, rfl, rfl⟩
      · rw [hIdN] at hv
        cases hv
    | none =>
      cases h.fetch with
      | idle hf =>
        rw [fetchNext_idle hr hf, imemReq_idle hr hf] at hfetch
        rw [ifAccept_idle hf] at hId
        -- a request goes out exactly if the front end moves, which empties IF/ID
        refine ⟨hpipe, ?_, fun hv => ?_, fun hd => ?_⟩
        · rw [hfetch]
          cases hq : !i.reset && frontMoves s.pipe i.dmemReady with
          | false => exact .idle ⟨rfl, hf.buf, hf.discard⟩
          | true => exact .waiting ⟨rfl, hf.buf, hf.discard⟩
        · rcases hId hv with ⟨hm, -⟩ | ha
          · rw [hfetch, hm, Bool.and_false]
            exact ⟨rfl, hf.buf, hf.discard⟩
          · cases ha
        · have := hd.discard
          rw [hfetch] at this
          rw [hf.discard] at this
          cases this
      | waiting hf =>
        have hnidle : ¬ s.fetch.Idle := fun hi => by simpa [hf.pending] using hi.pending
        rw [fetchNext_waiting hr hf] at hfetch
        rw [ifAccept_waiting hr hf] at hId
        cases hm : frontMoves s.pipe i.dmemReady <;> cases hi : i.imemReady <;>
          simp only [hm, hi, ↓reduceIte, Bool.false_eq_true] at hfetch hId
        -- no response: still waiting
        case false.false | true.false =>
          refine ⟨hpipe, .waiting (hfetch ▸ hf), fun hv => ?_, fun hd => ?_⟩
          · rcases hId hv with ⟨-, hidle⟩ | ha
            · exact absurd hidle hnidle
            · cases ha
          · have := hd.pending
            rw [hfetch, hf.pending] at this
            cases this
        -- the front end is held: the response goes to the buffer
        case false.true =>
          refine ⟨hpipe, .buffered ?_, fun hv => ?_, fun hd => ?_⟩
          · rw [hfetch]
            exact ⟨rfl, rfl, hf.discard⟩
          · rcases hId hv with ⟨-, hidle⟩ | ha
            · exact absurd hidle hnidle
            · cases ha
          · have := hd.buf
            rw [hfetch] at this
            cases this
        -- the response is accepted
        case true.true =>
          have hidle : (coreNext c s i).fetch.Idle := by
            rw [hfetch]
            exact ⟨rfl, hf.buf, hf.discard⟩
          refine ⟨hpipe, .idle hidle, fun _ => hidle, fun hd => ?_⟩
          have := hd.discard
          rw [hidle.discard] at this
          cases this
      | buffered hf =>
        rw [fetchNext_buffered hr hf] at hfetch
        rw [ifAccept_buffered hr hf] at hId
        cases hm : frontMoves s.pipe i.dmemReady with
        | true =>
          rw [hm, if_pos rfl] at hfetch
          have hidle : (coreNext c s i).fetch.Idle := by
            rw [hfetch]
            exact ⟨hf.pending, rfl, hf.discard⟩
          refine ⟨hpipe, .idle hidle, fun _ => hidle, fun hd => ?_⟩
          have := hd.discard
          rw [hidle.discard] at this
          cases this
        | false =>
          rw [hm, if_neg (by simp)] at hfetch
          refine ⟨hpipe, .buffered (hfetch ▸ hf), fun hv => ?_, fun hd => ?_⟩
          · rcases hId hv with ⟨-, hidle⟩ | ha
            · have := hidle.buf
              rw [hf.buf] at this
              cases this
            · rw [hm] at ha
              cases ha
          · have := hd.buf
            rw [hfetch, hf.buf] at this
            cases this
      | discarding hf =>
        rw [fetchNext_discarding hr hf] at hfetch
        rw [ifAccept_discarding hf] at hId
        -- IF/ID and EX were emptied by the redirect and nothing is accepted meanwhile
        obtain ⟨hIdS, hExS⟩ := h.quiet hf
        have hIdN : (coreNext c s i).pipe.ifId.valid = false := by
          by_contra hv
          rcases hId (Bool.eq_true_of_not_eq_false hv) with ⟨-, hidle⟩ | ha
          · have := hidle.discard
            rw [hf.discard] at this
            cases this
          · cases ha
        have hExN : (coreNext c s i).pipe.idEx.valid = false := by
          by_contra hv
          rw [coreNext_pipe hreset] at hv
          rcases idEx_of_next h.pipe (Bool.eq_true_of_not_eq_false hv) with
            ⟨hEx, -⟩ | ⟨-, -, hId'⟩
          · rw [hExS] at hEx
            cases hEx
          · rw [hIdS] at hId'
            cases hId'
        refine ⟨hpipe, ?_, fun hv => ?_, fun _ => ⟨hIdN, hExN⟩⟩
        · rw [hfetch]
          cases hi : i.imemReady with
          | false => exact .discarding ⟨hf.pending, hf.buf, rfl⟩
          | true => exact .idle ⟨hf.pending, hf.buf, rfl⟩
        · rw [hIdN] at hv
          cases hv

/-- **Every reachable state of the core is staged.** -/
theorem coreStaged_of_reachable (hs : (coreSystem c).Reachable s) : CoreStaged s := by
  refine hs.invariant (I := CoreStaged) ?_ fun _ _ _ _ h => coreNext_staged h
  rintro s rfl
  exact coreStaged_reset c

/-- **Stage occupancy**: whatever the inputs, no two adjacent stages hold valid
instructions. So there is no load-use hazard, the EX/MEM forwarding path is never selected,
memory never stalls an instruction in EX, and the CSR value captured in ID is the one the
CSR file holds while the instruction is in EX. -/
theorem stages_never_adjacent (c : Config) {s : Core} (hs : (coreSystem c).Reachable s) :
    ¬ (s.pipe.ifId.valid = true ∧ s.pipe.idEx.valid = true) ∧
    ¬ (s.pipe.idEx.valid = true ∧ s.pipe.exMem.valid = true) ∧
    ¬ (s.pipe.exMem.valid = true ∧ s.pipe.memWb.valid = true) ∧
    loadHazardEx s.pipe = false ∧ bubbleEx s.pipe = false ∧ s.pipe.loadUseHoldQ = false ∧
    s.pipe.idEx.forwardASel ≠ 0b01#2 ∧ s.pipe.idEx.forwardBSel ≠ 0b01#2 ∧
    (∀ dmemReady, s.pipe.idEx.valid = true → memStall s.pipe dmemReady = false) ∧
    (s.pipe.idEx.valid = true → s.pipe.idEx.ctrl.csrRead = true →
      s.pipe.idEx.ctrl.csrAddr ≠ csrMip → s.pipe.idEx.ctrl.csrAddr ≠ csrMeipend →
      s.pipe.idEx.csrOld = s.pipe.csr.read s.pipe.idEx.ctrl.csrAddr) := by
  have h := (coreStaged_of_reachable hs).pipe
  refine ⟨?_, ?_, ?_, h.loadHazardEx_eq, h.loadHazardEx_eq, h.hold, h.forwardA, h.forwardB,
    fun r hEx => h.memStall_eq hEx r, fun hEx _ hip hpend => h.csrFresh hEx hip hpend⟩
  · rintro ⟨hId, hEx⟩
    rw [h.ifId_idEx hId] at hEx
    cases hEx
  · rintro ⟨hEx, hMem⟩
    rw [h.idEx_exMem hEx] at hMem
    cases hMem
  · rintro ⟨hMem, hWb⟩
    rw [h.exMem_memWb hMem] at hWb
    cases hWb

/-- Inputs under which `csrrw x0, mscratch, x5` reaches EX: the request, its response, and
the cycle in ID. -/
def csrrwInputs : List (CoreIn 32) :=
  [{}, { imemReady := true, imemInstr := 0x34029073#32 }, {}]

theorem stages_never_adjacent_csrrw :
    ((coreSystem {}).after (coreReset {}) csrrwInputs).pipe.idEx.valid = true ∧
    ¬ (((coreSystem {}).after (coreReset {}) csrrwInputs).pipe.idEx.valid = true ∧
      ((coreSystem {}).after (coreReset {}) csrrwInputs).pipe.exMem.valid = true) ∧
    ((coreSystem {}).after (coreReset {}) csrrwInputs).pipe.idEx.csrOld =
      ((coreSystem {}).after (coreReset {}) csrrwInputs).pipe.csr.read csrMscratch := by
  have h := stages_never_adjacent {}
    (Clocked.Reachable.after (.init rfl) (fun _ _ => trivial) csrrwInputs)
  exact ⟨by decide, h.2.1, h.2.2.2.2.2.2.2.2.2 (by decide) (by decide) (by decide) (by decide)⟩

end RiscvV2
