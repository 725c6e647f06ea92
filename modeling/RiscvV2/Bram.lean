import Mathlib.Logic.Function.Basic
import RiscvV2.Wrapper

/-!
# The block RAM adapter

The wrapper with its two block RAMs. `ready` is inferred from the address being that of the
cycle before, which alone would hand stale data to two accesses of one word in a row. It is
right because of the core: after a completed access MEM is empty for a cycle, an access that
waits keeps its address, and no request is made in the cycle of a response.

A recorder keeps the data memory as the completed stores leave it. The block RAM differs from
it only in the second cycle of a store, by the write that the store then makes once more.

The two ports are treated apart, each with a step lemma of its own. On the instruction port a
request of the last cycle has its word on the output of the RAM now. On the data port an access
is in its first cycle, in its second, or there is none, and the flag beside the port tells the
first two apart. The joint invariant `BramInv` carries both through every reachable state, a
reset of the core included.
-/

namespace RiscvV2

/-! ## Block RAMs

A synchronous memory with byte enables, whose output comes one cycle after the address. That the
same write may be made twice is a property of the strobed write alone. -/

/-- A synchronous memory of `2 ^ k` words with its output register. -/
structure Bram (k : ℕ) where
  mem : BitVec k → Word
  dout : Word := 0

variable {k : ℕ}

/-- A write with byte enables to one word. -/
def writeMem (mem : BitVec k → Word) (a : BitVec k) (data : Word) (we : BitVec 4) :
    BitVec k → Word :=
  Function.update mem a (strobedWord (mem a) data we)

theorem writeMem_zero (mem : BitVec k → Word) (a : BitVec k) (data : Word) :
    writeMem mem a data 0#4 = mem := by
  have hword : strobedWord (mem a) data 0#4 = mem a := by
    have hmask : strobeMask 0#4 = 0#32 := by decide
    rw [strobedWord, hmask, BitVec.not_zero, BitVec.and_allOnes, BitVec.and_zero, BitVec.or_zero]
  rw [writeMem, hword, Function.update_eq_self]

/-- Making the same write again changes nothing. -/
theorem writeMem_idem (mem : BitVec k → Word) (a : BitVec k) (data : Word) (we : BitVec 4) :
    writeMem (writeMem mem a data we) a data we = writeMem mem a data we := by
  rw [writeMem, writeMem, Function.update_self, strobedWord_idem, Function.update_idem]

/-- A block RAM after a clock edge: the output is the addressed word before the write. -/
def Bram.next (b : Bram k) (rst en : Bool) (we : BitVec 4) (addr din : Word) : Bram k :=
  if rst then { b with dout := 0 }
  else if en then
    { mem := writeMem b.mem (addr.extractLsb' 2 k) din we
      dout := b.mem (addr.extractLsb' 2 k) }
  else b

theorem bramByteAddr_index (w : WrapperConfig) (addr : Word) :
    (bramByteAddr w addr).extractLsb' 2 w.addrWidth = bramIndex w addr := by
  have hw := w.addrWidth_le
  refine BitVec.eq_of_getElem_eq fun j hj => ?_
  simp only [bramByteAddr, bramIndex, BitVec.getElem_extractLsb', BitVec.getLsbD_append,
    BitVec.getLsbD_setWidth]
  have h1 : ¬ 2 + j < 2 := by omega
  have h2 : 2 + j - 2 = j := by omega
  rw [if_neg h1, h2]
  simp [hj]
  omega

/-! ## The wrapper with its memories -/

/-- The wrapper and the block RAMs on its two ports. -/
structure Board (w : WrapperConfig) where
  wrapper : Wrapper
  imem : Bram w.addrWidth
  dmem : Bram w.addrWidth

variable {w : WrapperConfig} {n : ℕ}

/-- The inputs of the wrapper: the block RAM outputs come from the block RAMs. -/
def boardIn (s : Board w) (i : WrapperIn n) : WrapperIn n :=
  { i with bramImemDout := s.imem.dout, bramDmemDout := s.dmem.dout }

/-- Wrapper and block RAMs after a clock edge. -/
def boardNext (s : Board w) (i : WrapperIn n) : Board w where
  wrapper := wrapperNext w s.wrapper (boardIn s i)
  imem := s.imem.next (cpuReset s.wrapper i) (!cpuReset s.wrapper i) 0#4
    (bramByteAddr w (imemAddr s.wrapper.core.fetch)) 0#32
  dmem := s.dmem.next (cpuReset s.wrapper i) (!cpuReset s.wrapper i) (bramDmemWe w s.wrapper)
    (bramByteAddr w (dmemAddr s.wrapper.core.pipe)) (dmemWriteData s.wrapper.core.pipe)

/-- What is recorded of the cycles since the core was last in reset. -/
structure BramLog (w : WrapperConfig) where
  /-- the data memory as the completed stores leave it -/
  mem : BitVec w.addrWidth → Word
  /-- the address that was requested in the last cycle -/
  fetch : Option Word := none
  /-- for how many cycles the access on the data port has been there -/
  age : ℕ := 0

/-- The write of the store on the data port. -/
def storeMem (s : Wrapper) (mem : BitVec w.addrWidth → Word) : BitVec w.addrWidth → Word :=
  writeMem mem (bramIndex w (dmemAddr s.core.pipe)) (dmemWriteData s.core.pipe)
    (dmemWstrb s.core.pipe)

/-- The record after a cycle. -/
def bramRecord (g : BramLog w) (s : Board w) (i : WrapperIn n) : BramLog w :=
  if cpuReset s.wrapper i then { mem := s.dmem.mem }
  else
    { mem :=
        if dmemSelBram w s.wrapper && dmemWriteEn s.wrapper.core.pipe &&
            dmemReady w s.wrapper (boardIn s i) then storeMem s.wrapper g.mem
        else g.mem
      fetch :=
        if imemReq (coreConfig w) s.wrapper.core (coreIn w s.wrapper (boardIn s i)) then
          some (imemAddr s.wrapper.core.fetch)
        else none
      age := if dmemAcc s.wrapper && !dmemReady w s.wrapper (boardIn s i) then g.age + 1 else 0 }

/-- The wrapper with block RAMs of the given contents, under arbitrary inputs. -/
def bramSystem (w : WrapperConfig) (imem₀ dmem₀ : BitVec w.addrWidth → Word) :
    Clocked (Clocked.Recorded (Board w) (BramLog w)) (WrapperIn w.numExtInterrupts) :=
  Clocked.record
    ⟨fun s => s.wrapper = wrapperReset w ∧ s.imem.mem = imem₀ ∧ s.dmem.mem = dmem₀,
      fun _ _ => True, boardNext⟩
    { mem := dmem₀ } (fun _ _ _ => True) bramRecord

variable {s : Board w} {g : BramLog w} {i : WrapperIn n}

/-! ## The instruction port

The fetch unit never requests in the cycle of a response, so the address register of the wrapper
always holds the last request that was made. -/

/-- The fetch unit waits exactly for the request of the last cycle, and the answer is there. -/
inductive FetchAnswer (w : WrapperConfig) (s : Board w) : Option Word → Prop
  | none (hq : s.wrapper.imemReqQ = false)
    (hf : s.wrapper.core.fetch.Idle ∨ s.wrapper.core.fetch.Buffered) : FetchAnswer w s none
  | some (hq : s.wrapper.imemReqQ = true)
    (haddr : s.wrapper.imemAddrQ = s.wrapper.core.fetch.pcF)
    (hf : s.wrapper.core.fetch.Waiting)
    (hd : s.imem.dout = s.imem.mem (bramIndex w s.wrapper.core.fetch.pcF)) :
    FetchAnswer w s (some s.wrapper.core.fetch.pcF)

theorem FetchAnswer.discard {a : Option Word} (h : FetchAnswer w s a) :
    s.wrapper.core.fetch.ifDiscardPending = false := by
  cases h with
  | none _ hf =>
    obtain hf | hf := hf
    · exact hf.discard
    · exact hf.discard
  | some _ _ hf => exact hf.discard

/-- With nothing requested the next cycle has no answer to expect. -/
theorem fetchAnswer_none (hreset : cpuReset s.wrapper i = false)
    (hreq : imemReq (coreConfig w) s.wrapper.core (coreIn w s.wrapper (boardIn s i)) = false)
    (hf : (fetchNext (coreConfig w) s.wrapper.core (coreIn w s.wrapper (boardIn s i))).Idle ∨
      (fetchNext (coreConfig w) s.wrapper.core (coreIn w s.wrapper (boardIn s i))).Buffered) :
    FetchAnswer w (boardNext s i) (bramRecord g s i).fetch := by
  have hcore : (boardNext s i).wrapper.core.fetch =
      fetchNext (coreConfig w) s.wrapper.core (coreIn w s.wrapper (boardIn s i)) :=
    coreNext_fetch hreset
  have hlog : (bramRecord g s i).fetch = none := by
    simp [bramRecord, hreset, hreq]
  rw [hlog]
  refine .none ?_ ?_
  · have hreset' : cpuReset s.wrapper (boardIn s i) = false := hreset
    simp [boardNext, wrapperNext, hreset', hreq]
  · rw [hcore]
    exact hf

/-- **Step lemma** of the instruction port. -/
theorem boardNext_fetch (hreset : cpuReset s.wrapper i = false)
    (h : FetchAnswer w s g.fetch) : FetchAnswer w (boardNext s i) (bramRecord g s i).fetch := by
  generalize ha : g.fetch = a at h
  cases hr : exRedirect (coreConfig w) s.wrapper.core.pipe
      (coreIn w s.wrapper (boardIn s i)).dmemReady with
  | some target =>
    refine fetchAnswer_none hreset (imemReq_of_redirect hr) (.inl ?_)
    rw [fetchNext_redirect hr]
    refine ⟨rfl, rfl, ?_⟩
    cases h with
    | none _ hf =>
      obtain hf | hf := hf
      · simp [hf.pending]
      · simp [hf.pending]
    -- the response comes in the cycle of the redirect itself: nothing to discard later
    | some hq haddr hf => simp [coreIn, imemReady, imemAddr, hq, haddr]
  | none =>
    cases h with
    | none hq hf =>
      obtain hf | hf := hf
      · -- the only situation in which a request is made
        cases hreq : imemReq (coreConfig w) s.wrapper.core
            (coreIn w s.wrapper (boardIn s i)) with
        | false =>
          refine fetchAnswer_none hreset hreq (.inl ?_)
          rw [fetchNext_idle hr hf, hreq]
          exact ⟨rfl, hf.buf, hf.discard⟩
        | true =>
          have hreset' : cpuReset s.wrapper (boardIn s i) = false := hreset
          have hcore : (boardNext s i).wrapper.core.fetch =
              { s.wrapper.core.fetch with ifPendingValid := true } := by
            refine (coreNext_fetch hreset).trans ?_
            rw [fetchNext_idle hr hf, hreq]
          have hpc : (boardNext s i).wrapper.core.fetch.pcF = s.wrapper.core.fetch.pcF := by
            rw [hcore]
          have hlog : (bramRecord g s i).fetch =
              some (boardNext s i).wrapper.core.fetch.pcF := by
            rw [hpc]
            simp [bramRecord, hreset, hreq, imemAddr]
          rw [hlog]
          refine .some ?_ ?_ ?_ ?_
          · simp [boardNext, wrapperNext, hreset', hreq]
          · rw [hpc]
            simp [boardNext, wrapperNext, hreset', imemAddr]
          · rw [hcore]
            exact ⟨rfl, hf.buf, hf.discard⟩
          · rw [hpc]
            simp [boardNext, Bram.next, hreset, writeMem_zero, bramByteAddr_index, imemAddr]
      · refine fetchAnswer_none hreset (imemReq_buffered hf) ?_
        rw [fetchNext_buffered hr hf]
        split_ifs
        · exact .inl ⟨hf.pending, rfl, hf.discard⟩
        · exact .inr hf
    | some hq haddr hf =>
      have hready : (coreIn w s.wrapper (boardIn s i)).imemReady = true := by
        simp [coreIn, imemReady, imemAddr, hq, haddr]
      refine fetchAnswer_none hreset (imemReq_waiting hf) ?_
      rw [fetchNext_waiting hr hf, if_pos hready]
      split_ifs
      · exact .inl ⟨rfl, hf.buf, hf.discard⟩
      · exact .inr ⟨rfl, rfl, hf.discard⟩

/-! ## The data port

Three phases: no access, an access in its first cycle, and one in its second, in which it is
answered. Between two accesses there is always a cycle without one, so the comparison of
addresses never takes a new access for an old one. -/

/-- The data port against the record. -/
inductive PortPhase (w : WrapperConfig) (s : Board w) (g : BramLog w) : Prop
  /-- no access -/
  | free (h : dmemAcc s.wrapper = false) (hm : s.dmem.mem = g.mem)
  /-- an access of the peripheral region -/
  | axi (h : dmemSelAxi w s.wrapper = true) (hm : s.dmem.mem = g.mem)
  /-- the first cycle of a block RAM access -/
  | first (h : dmemSelBram w s.wrapper = true) (hage : g.age = 0)
    (hq : s.wrapper.dmemAccQ = false) (hm : s.dmem.mem = g.mem)
  /-- the second one: the word is there, and a store has been made -/
  | second (h : dmemSelBram w s.wrapper = true) (hage : g.age = 1)
    (hq : s.wrapper.dmemAccQ = true)
    (haddr : s.wrapper.dmemAddrQ = dmemAddr s.wrapper.core.pipe)
    (hd : s.dmem.dout = g.mem (bramIndex w (dmemAddr s.wrapper.core.pipe)))
    (hm : s.dmem.mem =
      if dmemWriteEn s.wrapper.core.pipe then storeMem s.wrapper g.mem else g.mem)

/-! ### Wires of the data port -/

theorem dmemSelBram_eq : dmemSelBram w s.wrapper =
    (dmemAcc s.wrapper && !inAxiRegion w (dmemAddr s.wrapper.core.pipe)) := by
  rw [dmemSelBram, dmemSelAxi]
  cases dmemAcc s.wrapper <;> rfl

/-- An access goes to exactly one of the two. -/
theorem dmemSelAxi_of_selBram (h : dmemSelBram w s.wrapper = true) :
    dmemSelAxi w s.wrapper = false := by
  rw [dmemSelBram, Bool.and_eq_true, Bool.not_eq_true'] at h
  exact h.2

theorem dmemReady_of_selBram (h : dmemSelBram w s.wrapper = true) (i : WrapperIn n) :
    dmemReady w s.wrapper i = bramDmemReady s.wrapper := by
  rw [dmemReady, if_neg (by simp [dmemSelAxi_of_selBram h])]

theorem bramDmemWe_of_not_selBram (h : dmemSelBram w s.wrapper = false) :
    bramDmemWe w s.wrapper = 0#4 := by
  rw [bramDmemWe, h, Bool.false_and]
  rfl

/-- The data memory after an edge: a store on the port writes in every cycle it is there. -/
theorem dmem_next (hreset : cpuReset s.wrapper i = false) :
    (boardNext s i).dmem.mem =
      if dmemSelBram w s.wrapper && dmemWriteEn s.wrapper.core.pipe then
        storeMem s.wrapper s.dmem.mem
      else s.dmem.mem := by
  have hmem : (boardNext s i).dmem.mem =
      writeMem s.dmem.mem (bramIndex w (dmemAddr s.wrapper.core.pipe))
        (dmemWriteData s.wrapper.core.pipe) (bramDmemWe w s.wrapper) := by
    simp [boardNext, Bram.next, hreset, bramByteAddr_index]
  rw [hmem, bramDmemWe]
  split_ifs
  · rfl
  · exact writeMem_zero _ _ _

/-- A store that is made twice is made once. -/
theorem storeMem_idem (s : Wrapper) (mem : BitVec w.addrWidth → Word) :
    storeMem s (storeMem s mem) = storeMem s mem :=
  writeMem_idem _ _ _ _

/-- Where the address is free after an edge, the access that appears is a new one. -/
theorem portPhase_new (hreset : cpuReset s.wrapper i = false)
    (hq : dmemSelBram w s.wrapper = false) (hage : (bramRecord g s i).age = 0)
    (hm : (boardNext s i).dmem.mem = (bramRecord g s i).mem) :
    PortPhase w (boardNext s i) (bramRecord g s i) := by
  have hreset' : cpuReset s.wrapper (boardIn s i) = false := hreset
  cases hacc : dmemAcc (boardNext s i).wrapper with
  | false => exact .free hacc hm
  | true =>
    cases hsel : dmemSelAxi w (boardNext s i).wrapper with
    | true => exact .axi hsel hm
    | false =>
      refine .first ?_ hage ?_ hm
      · rw [dmemSelBram, hacc, hsel]
        rfl
      · simp [boardNext, wrapperNext, hreset', hq]

/-- **Step lemma** of the data port. -/
theorem boardNext_port (hreset : cpuReset s.wrapper i = false) (hp : PortInv w s.wrapper)
    (h : PortPhase w s g) : PortPhase w (boardNext s i) (bramRecord g s i) := by
  have hreset' : cpuReset s.wrapper (boardIn s i) = false := hreset
  have hdmem := dmem_next hreset
  have hdone : dmemAcc s.wrapper = true → dmemReady w s.wrapper (boardIn s i) = true →
      dmemAcc (boardNext s i).wrapper = false := by
    intro hacc hready
    have hinv := hp.done hreset' hacc hready
    rw [dmemAcc_eq, boardNext, hinv, Bool.false_and]
  cases h with
  | free hacc hm =>
    have hsel : dmemSelBram w s.wrapper = false := by rw [dmemSelBram, hacc, Bool.false_and]
    rw [hsel, Bool.false_and, if_neg (by simp), hm] at hdmem
    refine portPhase_new hreset hsel ?_ ?_
    · simp [bramRecord, hreset, hacc]
    · rw [hdmem]
      simp [bramRecord, hreset, hsel]
  | axi hsel hm =>
    have hacc := dmemAcc_of_selAxi hsel
    have hbram : dmemSelBram w s.wrapper = false := by
      rw [dmemSelBram, hsel, Bool.not_true, Bool.and_false]
    rw [hbram, Bool.false_and, if_neg (by simp), hm] at hdmem
    have hmem : (boardNext s i).dmem.mem = (bramRecord g s i).mem := by
      rw [hdmem]
      simp [bramRecord, hreset, hbram]
    cases hready : dmemReady w s.wrapper (boardIn s i) with
    | true => exact .free (hdone hacc hready) hmem
    | false =>
      have hMem := hp.wait hreset' hacc hready
      refine .axi ?_ hmem
      rw [← portRequest_isSome, boardNext, portRequest_congr hMem, portRequest_isSome, hsel]
  | first hsel hage hq hm =>
    have hacc := (Bool.and_eq_true_iff.mp hsel).1
    have hready : dmemReady w s.wrapper (boardIn s i) = false := by
      rw [dmemReady_of_selBram hsel, bramDmemReady, hq, Bool.false_and]
    have hMem : (boardNext s i).wrapper.core.pipe.exMem = s.wrapper.core.pipe.exMem :=
      hp.wait hreset' hacc hready
    obtain ⟨-, hwrite, haddr, hdata, hstrb⟩ := port_congr hMem
    obtain ⟨hacc', hsel'⟩ := dmemSel_congr (w := w) hMem
    have hrec : (bramRecord g s i).mem = g.mem := by simp [bramRecord, hreset, hready]
    have hstore : ∀ mem : BitVec w.addrWidth → Word,
        storeMem (boardNext s i).wrapper mem = storeMem s.wrapper mem := by
      intro mem
      rw [storeMem, storeMem, haddr, hdata, hstrb]
    refine .second ?_ ?_ ?_ ?_ ?_ ?_
    · rw [dmemSelBram, hacc', hsel']
      exact hsel
    · simp [bramRecord, hreset, hacc, hready, hage]
    · simp [boardNext, wrapperNext, hreset', hsel]
    · rw [haddr]
      simp [boardNext, wrapperNext, hreset']
    · rw [haddr, hrec, ← hm]
      simp [boardNext, Bram.next, hreset, bramByteAddr_index]
    · rw [hdmem, hsel, Bool.true_and, hwrite, hstore, hrec, hm]
  | second hsel hage hq haddr hd hm =>
    have hacc := (Bool.and_eq_true_iff.mp hsel).1
    have hready : dmemReady w s.wrapper (boardIn s i) = true := by
      rw [dmemReady_of_selBram hsel, bramDmemReady, hq, haddr]
      simp
    -- the store makes its write once more, at the edge that completes it
    refine .free (hdone hacc hready) ?_
    rw [hdmem, hm]
    cases hw : dmemWriteEn s.wrapper.core.pipe with
    | true => simp [bramRecord, hreset, hsel, hw, hready, storeMem_idem]
    | false => simp [bramRecord, hreset, hsel, hw]

/-! ## Whole runs -/

/-- The joint invariant of the core, the wrapper and the block RAMs. -/
structure BramInv (w : WrapperConfig) (imem₀ : BitVec w.addrWidth → Word) (s : Board w)
    (g : BramLog w) : Prop where
  wrapper : WrapperInv w s.wrapper
  fetch : FetchAnswer w s g.fetch
  port : PortPhase w s g
  imem : s.imem.mem = imem₀

variable {imem₀ dmem₀ : BitVec w.addrWidth → Word}

theorem imem_next (s : Board w) (i : WrapperIn n) : (boardNext s i).imem.mem = s.imem.mem := by
  simp only [boardNext, Bram.next]
  split_ifs
  · rfl
  · exact writeMem_zero _ _ _
  · rfl

/-- **Run lemma**: the invariant holds in every reachable state, resets included. -/
theorem bramInv_of_reachable {t : Clocked.Recorded (Board w) (BramLog w)}
    (ht : (bramSystem w imem₀ dmem₀).Reachable t) : BramInv w imem₀ t.sys t.log := by
  refine ht.recorded (I := BramInv w imem₀) ?_ ?_
  · rintro s ⟨hs, himem, hdmem⟩
    refine ⟨?_, ?_, ?_, himem⟩
    · rw [hs]
      exact wrapperInv_of_reachable (.init rfl)
    · refine .none ?_ (.inl ?_)
      · rw [hs]
        rfl
      · rw [hs]
        exact ⟨rfl, rfl, rfl⟩
    · refine .free ?_ hdmem
      rw [hs]
      rfl
  · intro s g i _ _ _ hI
    have hwrapper : WrapperInv w (boardNext s i).wrapper := wrapperNext_inv hI.wrapper
    have himem : (boardNext s i).imem.mem = imem₀ := (imem_next s i).trans hI.imem
    cases hreset : cpuReset s.wrapper i with
    | false =>
      exact ⟨hwrapper, boardNext_fetch hreset hI.fetch,
        boardNext_port hreset hI.wrapper.port hI.port, himem⟩
    | true =>
      have hreset' : cpuReset s.wrapper (boardIn s i) = true := hreset
      have hcore : (boardNext s i).wrapper.core = coreReset (coreConfig w) :=
        core_of_cpuReset hreset'
      have hlog : bramRecord g s i = { mem := s.dmem.mem } := by rw [bramRecord, if_pos hreset]
      refine ⟨hwrapper, ?_, ?_, himem⟩
      · change FetchAnswer w (boardNext s i) (bramRecord g s i).fetch
        rw [hlog]
        refine .none ?_ (.inl ?_)
        · simp [boardNext, wrapperNext, hreset']
        · rw [hcore]
          exact ⟨rfl, rfl, rfl⟩
      · change PortPhase w (boardNext s i) (bramRecord g s i)
        rw [hlog]
        refine .free ?_ ?_
        · rw [dmemAcc, hcore]
          rfl
        · simp [boardNext, Bram.next, hreset]

/-- The port in its first or second cycle of a block RAM access. -/
theorem PortPhase.bram (h : PortPhase w s g) (hsel : dmemSelBram w s.wrapper = true) :
    (g.age = 0 ∧ bramDmemReady s.wrapper = false) ∨
      (g.age = 1 ∧ bramDmemReady s.wrapper = true ∧
        s.dmem.dout = g.mem (bramIndex w (dmemAddr s.wrapper.core.pipe))) := by
  cases h with
  | free hacc =>
    rw [dmemSelBram, hacc] at hsel
    cases hsel
  | axi haxi =>
    rw [dmemSelAxi_of_selBram hsel] at haxi
    cases haxi
  | first _ hage hq => exact .inl ⟨hage, by rw [bramDmemReady, hq, Bool.false_and]⟩
  | second _ hage hq haddr hd =>
    refine .inr ⟨hage, ?_, hd⟩
    rw [bramDmemReady, hq, haddr, Bool.true_and]
    exact beq_self_eq_true _

/-- The data memory differs from the record by the store in its second cycle. -/
theorem PortPhase.mem_eq (h : PortPhase w s g) :
    s.dmem.mem =
      if dmemSelBram w s.wrapper && dmemWriteEn s.wrapper.core.pipe && g.age == 1 then
        storeMem s.wrapper g.mem
      else g.mem := by
  cases h with
  | free hacc hm =>
    rw [dmemSelBram, hacc, hm]
    rfl
  | axi haxi hm =>
    rw [dmemSelBram, haxi, hm, Bool.not_true, Bool.and_false]
    rfl
  | first hsel hage hq hm =>
    rw [hage, hm, if_neg (by simp)]
  | second hsel hage hq haddr hd hm =>
    rw [hsel, hage, hm, Bool.true_and, beq_self_eq_true, Bool.and_true]

/-- The request of the last cycle is answered now. -/
theorem BramInv.answered (hI : BramInv w imem₀ s g) (i : WrapperIn n) {a : Word}
    (ha : g.fetch = some a) :
    (coreIn w s.wrapper (boardIn s i)).imemReady = true ∧
      (coreIn w s.wrapper (boardIn s i)).imemInstr = imem₀ (bramIndex w a) ∧
      (coreIn w s.wrapper (boardIn s i)).imemRespPc = a := by
  have hf := hI.fetch
  rw [ha] at hf
  cases hf with
  | some hq haddr hf hd =>
    refine ⟨?_, ?_, haddr⟩
    · change (s.wrapper.imemReqQ && s.wrapper.imemAddrQ == s.wrapper.core.fetch.pcF) = true
      rw [hq, haddr, Bool.true_and]
      exact beq_self_eq_true _
    · rw [← hI.imem]
      exact hd

/-- A block RAM access is completed in its second cycle, a load with the recorded word. -/
theorem BramInv.second_cycle (hI : BramInv w imem₀ s g) (i : WrapperIn n)
    (hsel : dmemSelBram w s.wrapper = true) :
    g.age ≤ 1 ∧ (dmemReady w s.wrapper (boardIn s i) = true ↔ g.age = 1) ∧
      (dmemReady w s.wrapper (boardIn s i) = true →
        dmemReadData w s.wrapper (boardIn s i) =
          g.mem (bramIndex w (dmemAddr s.wrapper.core.pipe))) := by
  rw [dmemReady_of_selBram hsel, dmemReadData, if_neg (by simp [dmemSelAxi_of_selBram hsel])]
  obtain ⟨hage, hr⟩ | ⟨hage, hr, hd⟩ := hI.port.bram hsel
  · refine ⟨by omega, by simp [hr, hage], fun h => ?_⟩
    exact absurd (hr.symm.trans h) Bool.false_ne_true
  · exact ⟨by omega, by simp [hr, hage], fun _ => hd⟩

/-- In its first cycle a block RAM access stays for a second one. -/
theorem BramInv.first_cycle (hI : BramInv w imem₀ s g)
    (hsel : dmemSelBram w s.wrapper = true) (hage : g.age = 0)
    (hreset : cpuReset s.wrapper i = false) :
    (boardNext s i).wrapper.core.pipe.exMem = s.wrapper.core.pipe.exMem ∧
      (bramRecord g s i).age = 1 := by
  have hacc := (Bool.and_eq_true_iff.mp hsel).1
  have hready : dmemReady w s.wrapper (boardIn s i) = false := by
    by_contra hr
    obtain ⟨-, hiff, -⟩ := hI.second_cycle i hsel
    have := hiff.mp (Bool.eq_true_of_not_eq_false hr)
    omega
  have hreset' : cpuReset s.wrapper (boardIn s i) = false := hreset
  refine ⟨hI.wrapper.port.wait hreset' hacc hready, ?_⟩
  simp [bramRecord, hreset, hacc, hready, hage]

/-- The edge at which a store is completed leaves the memory with this one write. -/
theorem BramInv.stored (hI : BramInv w imem₀ s g) (hsel : dmemSelBram w s.wrapper = true)
    (hw : dmemWriteEn s.wrapper.core.pipe = true)
    (hready : dmemReady w s.wrapper (boardIn s i) = true) :
    (boardNext s i).dmem.mem = storeMem s.wrapper g.mem := by
  obtain ⟨-, hiff, -⟩ := hI.second_cycle i hsel
  have hmem : s.dmem.mem = storeMem s.wrapper g.mem := by
    rw [hI.port.mem_eq, hsel, hw, hiff.mp hready]
    rfl
  cases hreset : cpuReset s.wrapper i with
  | true => simp [boardNext, Bram.next, hreset, hmem]
  | false =>
    rw [dmem_next hreset, hsel, hw, Bool.and_self, if_pos rfl, hmem]
    exact storeMem_idem _ _

/-- **The block RAM adapter is the memory the core expects.** In every cycle of every run:

* a request of the last cycle is answered with the word it asked for, so that no response is
  ever left to be discarded;
* an access to a block RAM is completed in its second cycle, a load with the word that the
  completed stores have left;
* the data memory is what the completed stores have left, up to the store being in its second
  cycle, and completing that store is this one write;
* the data memory is not written for an access of the peripheral region, and the master sees
  and drives accesses of that region only. -/
theorem bram_adapter (w : WrapperConfig) (imem₀ dmem₀ : BitVec w.addrWidth → Word)
    {t : Clocked.Recorded (Board w) (BramLog w)} (ht : (bramSystem w imem₀ dmem₀).Reachable t)
    (i : WrapperIn w.numExtInterrupts) :
    let s := t.sys.wrapper
    let p := t.sys.wrapper.core.pipe
    let i' := boardIn t.sys i
    ((∀ a, t.log.fetch = some a →
        (coreIn w s i').imemReady = true ∧
        (coreIn w s i').imemInstr = imem₀ (bramIndex w a) ∧
        (coreIn w s i').imemRespPc = a) ∧
      s.core.fetch.ifDiscardPending = false) ∧
    (dmemSelBram w s = true →
      t.log.age ≤ 1 ∧ (dmemReady w s i' = true ↔ t.log.age = 1) ∧
      (dmemReady w s i' = true → dmemReadEn p = true →
        dmemReadData w s i' = t.log.mem (bramIndex w (dmemAddr p))) ∧
      (t.log.age = 0 → cpuReset s i = false →
        (boardNext t.sys i).wrapper.core.pipe.exMem = p.exMem ∧
          (bramRecord t.log t.sys i).age = 1)) ∧
    (t.sys.dmem.mem =
        (if dmemSelBram w s && dmemWriteEn p && t.log.age == 1 then storeMem s t.log.mem
        else t.log.mem) ∧
      (dmemSelBram w s = true → dmemWriteEn p = true → dmemReady w s i' = true →
        (boardNext t.sys i).dmem.mem = storeMem s t.log.mem)) ∧
    ((inAxiRegion w (dmemAddr p) = true → bramDmemWe w s = 0#4) ∧
      (inAxiRegion w (dmemAddr p) = false →
        (masterIn w s i').reqRead = false ∧ (masterIn w s i').reqWrite = false) ∧
      ((masterAwvalid s.master || masterWvalid s.master || masterArvalid s.master) = true →
        dmemAcc s = true ∧ inAxiRegion w (dmemAddr p) = true ∧
        s.master.activeAddr = alignedWordAddr (dmemAddr p))) := by
  intro s p i'
  have hI := bramInv_of_reachable ht
  refine ⟨⟨?_, hI.fetch.discard⟩, ?_, ⟨hI.port.mem_eq, ?_⟩, ?_, ?_, ?_⟩
  · intro a ha
    exact hI.answered i ha
  · intro hsel
    obtain ⟨hage, hready, hload⟩ := hI.second_cycle i hsel
    exact ⟨hage, hready, fun hr _ => hload hr, hI.first_cycle hsel⟩
  · intro hsel hw hready
    exact hI.stored hsel hw hready
  · intro hregion
    apply bramDmemWe_of_not_selBram
    rw [dmemSelBram_eq, hregion, Bool.not_true, Bool.and_false]
  · intro hregion
    have hsel : dmemSelAxi w s = false := by rw [dmemSelAxi, hregion, Bool.and_false]
    exact ⟨by simp [masterIn, hsel], by simp [masterIn, hsel]⟩
  · intro hv
    obtain ⟨cur, hserve⟩ := hI.wrapper.serves
    obtain ⟨hsel, haddr⟩ := hserve.offers hv
    rw [dmemSelAxi, Bool.and_eq_true] at hsel
    exact ⟨hsel.1, hsel.2, haddr⟩

/-- A control write that releases the core, followed by cycles without bus traffic. -/
def releaseInputs : List (WrapperIn 32) :=
  let release : WrapperIn 32 :=
    { sAxiCtrlAwvalid := true, sAxiCtrlWvalid := true, sAxiCtrlWstrb := 0xf#4,
      sAxiCtrlBready := true }
  [release, release, {}, {}, {}, {}, {}]

/-- The first instruction is `sw x0, 8(x0)`, and the data memory is full of ones. -/
theorem bram_adapter_store :
    let t := (bramSystem {} (fun _ => 0x00002423#32) (fun _ => 1#32)).after
      ⟨⟨wrapperReset {}, ⟨fun _ => 0x00002423#32, 0#32⟩, ⟨fun _ => 1#32, 0#32⟩⟩,
        { mem := fun _ => 1#32 }⟩ releaseInputs
    t.log.age = 1 ∧ t.log.mem 2#10 = 1#32 ∧
      (boardNext t.sys ({} : WrapperIn 32)).dmem.mem 2#10 = 0#32 := by
  intro t
  have hreach := Clocked.Reachable.after
    (M := bramSystem {} (fun _ => 0x00002423#32) (fun _ => 1#32))
    (s := ⟨⟨wrapperReset {}, ⟨fun _ => 0x00002423#32, 0#32⟩, ⟨fun _ => 1#32, 0#32⟩⟩,
      { mem := fun _ => 1#32 }⟩)
    (.init ⟨⟨rfl, rfl, rfl⟩, rfl⟩) (fun _ _ => ⟨trivial, trivial⟩) releaseInputs
  have hsel : dmemSelBram {} t.sys.wrapper = true := by decide
  have hage : t.log.age = 1 := by decide
  obtain ⟨-, hport, ⟨-, hstore⟩, -⟩ := bram_adapter {} _ _ hreach {}
  have hready := (hport hsel).2.1.mpr hage
  refine ⟨hage, by decide, ?_⟩
  rw [hstore hsel (by decide) hready]
  decide

end RiscvV2
