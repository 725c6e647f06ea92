import RiscvV2.Clocked
import RiscvV2.Pipeline

/-!
# The core (`riscv_core.sv`)

The fetch unit in front of the back end of `Pipeline`: the pc, the one outstanding request
(`if_pending_valid`), the response still to be thrown away after a redirect
(`if_discard_pending`), and a one-entry buffer for a response that arrives while the front
end is stalled.

The fetch unit keeps at most one request in flight, and it forgets a request only in the sense
that the answer will not be used: a redirect cannot recall what the memory has been asked for,
so it leaves a flag behind that makes the next response disappear. The three flags and the
buffer are modelled as the source has them, as independent registers. That they are never set
together is a theorem (`FetchUnit`) and not built into the state.

`coreSystem` lets every input be anything in every cycle, including a memory that answers
without having been asked, and a reset at any time. Statements that need a memory which keeps
its promises say so by recording the run and restricting the inputs in terms of the record.
-/

namespace RiscvV2

/-- The registers of the fetch unit. -/
@[ext]
structure Fetch where
  pcF : Word
  ifPendingValid : Bool := false
  ifDiscardPending : Bool := false
  ifBufValid : Bool := false
  ifBufInstr : Word := 0
  ifBufPc : Word := 0
  deriving DecidableEq, Repr

/-- The registers of `riscv_core`. -/
structure Core where
  fetch : Fetch
  pipe : Pipe

/-- The inputs of `riscv_core` in a cycle. -/
structure CoreIn (n : ℕ) where
  reset : Bool := false
  globalInterrupts : BitVec n := 0
  imemReady : Bool := false
  imemInstr : Word := 0
  imemRespPc : Word := 0
  dmemReady : Bool := false
  dmemReadData : Word := 0

/-- The core out of reset. -/
def coreReset (c : Config) : Core := ⟨{ pcF := c.resetPc }, Pipe.reset⟩

/-! ## IF stage

The wires of the fetch unit. `if_accept` moves a response into IF/ID and `imem_req` asks for the
next one; they exclude each other, so the two never happen at the same edge. -/

/-- `imem_addr`. -/
def imemAddr (f : Fetch) : Word := f.pcF

/-- `if_live_resp_valid`. -/
def ifLiveRespValid (f : Fetch) (imemReady : Bool) : Bool :=
  imemReady && f.ifPendingValid && !f.ifDiscardPending

/-- `if_resp_valid`. -/
def ifRespValid (f : Fetch) (imemReady : Bool) : Bool :=
  f.ifBufValid || ifLiveRespValid f imemReady

/-- `if_resp_instr`. -/
def ifRespInstr (f : Fetch) (imemInstr : Word) : Word :=
  if f.ifBufValid then f.ifBufInstr else imemInstr

/-- `if_resp_pc`. -/
def ifRespPc (f : Fetch) (imemRespPc : Word) : Word :=
  if f.ifBufValid then f.ifBufPc else imemRespPc

variable {n : ℕ}

/-- `if_accept`. -/
def ifAccept (c : Config) (s : Core) (i : CoreIn n) : Bool :=
  !memStall s.pipe i.dmemReady && !stallIf s.pipe && ifRespValid s.fetch i.imemReady &&
    (exRedirect c s.pipe i.dmemReady).isNone

/-- `imem_resp_accept`. -/
def imemRespAccept (c : Config) (s : Core) (i : CoreIn n) : Bool :=
  i.imemReady && (s.fetch.ifPendingValid || s.fetch.ifDiscardPending ||
    (exRedirect c s.pipe i.dmemReady).isSome)

/-- `imem_req`. No request is launched in the cycle a response is accepted: `pc_f` advances
at that edge. -/
def imemReq (c : Config) (s : Core) (i : CoreIn n) : Bool :=
  !i.reset && !memStall s.pipe i.dmemReady && !stallIf s.pipe &&
    (exRedirect c s.pipe i.dmemReady).isNone && !ifRespValid s.fetch i.imemReady &&
    !s.fetch.ifPendingValid && !s.fetch.ifDiscardPending

/-- `pc_f` after the edge: enabled by `pc_f_en`, loaded with `pc_f_next`. -/
def pcFNext (c : Config) (s : Core) (i : CoreIn n) : Word :=
  if memStall s.pipe i.dmemReady then s.fetch.pcF
  else match exRedirect c s.pipe i.dmemReady with
  | some target => target
  | none => if ifAccept c s i then s.fetch.pcF + 4#32 else s.fetch.pcF

/-- A response that arrives without being accepted moves to the empty fetch buffer. -/
def ifBufFill (c : Config) (s : Core) (i : CoreIn n) : Bool :=
  i.imemReady && !s.fetch.ifDiscardPending && s.fetch.ifPendingValid &&
    (ifLiveRespValid s.fetch i.imemReady && !ifAccept c s i && !s.fetch.ifBufValid)

/-- The fetch unit after a clock edge without reset. -/
def fetchNext (c : Config) (s : Core) (i : CoreIn n) : Fetch :=
  let f := s.fetch
  if (exRedirect c s.pipe i.dmemReady).isSome then
    { f with
      pcF := pcFNext c s i
      ifBufValid := false
      ifPendingValid := false
      ifDiscardPending := f.ifPendingValid && !i.imemReady }
  else
    { pcF := pcFNext c s i
      ifPendingValid :=
        -- the request is the last assignment of the clocked process
        if imemReq c s i then true
        else if i.imemReady && !f.ifDiscardPending && f.ifPendingValid then false
        else f.ifPendingValid
      ifDiscardPending := if i.imemReady && f.ifDiscardPending then false else f.ifDiscardPending
      ifBufValid :=
        if ifBufFill c s i then true
        else if ifAccept c s i && f.ifBufValid then false
        else f.ifBufValid
      ifBufInstr := if ifBufFill c s i then i.imemInstr else f.ifBufInstr
      ifBufPc := if ifBufFill c s i then i.imemRespPc else f.ifBufPc }

/-! ## The core as a clocked system -/

/-- What the fetch unit and the memories hand to the back end. -/
def pipeIn (c : Config) (s : Core) (i : CoreIn n) : PipeIn n where
  globalInterrupts := i.globalInterrupts
  ifAccept := ifAccept c s i
  ifRespPc := ifRespPc s.fetch i.imemRespPc
  ifRespInstr := ifRespInstr s.fetch i.imemInstr
  dmemReady := i.dmemReady
  dmemReadData := i.dmemReadData

@[simp] theorem pipeIn_dmemReady (c : Config) (s : Core) (i : CoreIn n) :
    (pipeIn c s i).dmemReady = i.dmemReady := rfl

@[simp] theorem pipeIn_globalInterrupts (c : Config) (s : Core) (i : CoreIn n) :
    (pipeIn c s i).globalInterrupts = i.globalInterrupts := rfl

/-- The core after a clock edge. -/
def coreNext (c : Config) (s : Core) (i : CoreIn n) : Core :=
  if i.reset then coreReset c
  else ⟨fetchNext c s i, pipeNext c s.pipe (pipeIn c s i)⟩

/-- `riscv_core` under arbitrary inputs, further resets included. -/
def coreSystem (c : Config) : Clocked Core (CoreIn c.numExtInterrupts) where
  init s := s = coreReset c
  allowed _ _ := True
  next := coreNext c

theorem coreNext_of_reset {c : Config} {s : Core} {i : CoreIn n} (h : i.reset = true) :
    coreNext c s i = coreReset c := by
  rw [coreNext, if_pos h]

theorem coreNext_fetch {c : Config} {s : Core} {i : CoreIn n} (h : i.reset = false) :
    (coreNext c s i).fetch = fetchNext c s i := by
  rw [coreNext, if_neg (by simp [h])]

theorem coreNext_pipe {c : Config} {s : Core} {i : CoreIn n} (h : i.reset = false) :
    (coreNext c s i).pipe = pipeNext c s.pipe (pipeIn c s i) := by
  rw [coreNext, if_neg (by simp [h])]

end RiscvV2
