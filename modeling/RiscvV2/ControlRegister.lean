import RiscvV2.AxiControl

/-!
# What the control slave stores and returns

The register contents in terms of the transfers on the channels: the control register is the
fold of the writes accepted since the last reset, and a read returns what the addressed
register held when the read was accepted. The slave latches an address one cycle before it
uses it; the rule that an offer is held makes the latched address the accepted one.

The reference is a history without the slave's registers: the writes accepted so far, the last
word read, and the offers that are still open. The slave agrees with it in every reachable
state, with a master of any timing that keeps its offers and with resets at any time. Bit 0 of
the control register gets a theorem of its own, since it is the reset of the core: it is bit 0
of the last write that had the strobe of byte 0 set.
-/

namespace RiscvV2

open Handshake

variable {w : ℕ}

/-! ## The history of the channels

An offer that is not taken is recorded as pending, and the next cycle has to repeat it. This is
the only rule for the master. -/

/-- A write, as its two channels transfer it. -/
structure ControlWrite (w : ℕ) where
  addr : BitVec w
  data : Word
  strb : BitVec 4
  deriving DecidableEq, Repr

/-- The register an address selects. -/
def wordSelect (addr : BitVec w) : BitVec 2 := addr.extractLsb' 2 2

/-- The contents of the register at an address. -/
def registerAt (s : Control w) (addr : BitVec w) : Word :=
  if wordSelect addr = 0#2 then s.slvReg0
  else if wordSelect addr = 1#2 then s.slvReg1
  else 0#32

/-- What has happened since the last reset. -/
structure ControlHistory (w : ℕ) where
  /-- the writes accepted so far, oldest first -/
  writes : List (ControlWrite w) := []
  /-- the contents of the register read, when the read that raised `RVALID` was accepted -/
  readValue : Word := 0
  /-- `cpu_running` in the last cycle -/
  running : Bool := false
  /-- what the master offered in the last cycle and the slave did not take -/
  aw : Option (BitVec w) := none
  wd : Option (Word × BitVec 4) := none
  ar : Option (BitVec w) := none
  deriving DecidableEq, Repr

/-- What is offered but not taken. -/
def pending {α : Type*} (ch : Channel α) : Option α :=
  if ch.valid && !ch.ready then some ch.payload else none

/-- An offer that was not taken is made again. -/
def Repeats {α : Type*} (offer : Option α) (ch : Channel α) : Prop :=
  ∀ a ∈ offer, ch.valid = true ∧ ch.payload = a

instance {α : Type*} [DecidableEq α] (offer : Option α) (ch : Channel α) :
    Decidable (Repeats offer ch) := inferInstanceAs (Decidable (∀ a ∈ offer, _))

/-- The write that is accepted in a cycle: both its channels transfer. -/
def acceptedWrite (s : Control w) (i : ControlIn w) : Option (ControlWrite w) :=
  match (awChannel s i).transfer, (wChannel s i).transfer with
  | some addr, some (data, strb) => some ⟨addr, data, strb⟩
  | _, _ => none

/-- The history after a cycle. -/
def historyNext (g : ControlHistory w) (s : Control w) (i : ControlIn w) : ControlHistory w :=
  if !i.aresetn then {}
  else
    { writes := g.writes ++ (acceptedWrite s i).toList
      readValue :=
        match (arChannel s i).transfer with
        | some addr => if s.rvalid then g.readValue else registerAt s addr
        | none => g.readValue
      running := i.cpuRunning
      aw := pending (awChannel s i)
      wd := pending (wChannel s i)
      ar := pending (arChannel s i) }

/-- **The slave under a legal master**, which repeats its offers until they are taken, with any
timing and with resets at any time. -/
def controlHistorySystem (w : ℕ) :
    Clocked (Clocked.Recorded (Control w) (ControlHistory w)) (ControlIn w) :=
  Clocked.record ⟨fun s => s = {}, fun _ _ => True, controlNext⟩ {}
    (fun g s i => Repeats g.aw (awChannel s i) ∧ Repeats g.wd (wChannel s i) ∧
      Repeats g.ar (arChannel s i))
    historyNext

instance (r : Clocked.Recorded (Control w) (ControlHistory w)) (i : ControlIn w) :
    Decidable ((controlHistorySystem w).allowed r i) :=
  inferInstanceAs (Decidable (True ∧ _ ∧ _ ∧ _))

/-! ## The fold of the writes

A write replaces the strobed bytes and keeps the others, so the register is a fold over the
writes. Only a write to byte 0 of word 0 can change bit 0. -/

/-- A write to word 0. -/
def ControlWrite.isControl (a : ControlWrite w) : Bool := wordSelect a.addr == 0#2

/-- The control register after a sequence of writes. -/
def controlWord (writes : List (ControlWrite w)) : Word :=
  (writes.filter (·.isControl)).foldl (fun old a => strobedWord old a.data a.strb) 1#32

/-- A write to byte 0 of word 0. -/
def ControlWrite.isResetByte (a : ControlWrite w) : Bool := a.isControl && a.strb.getLsbD 0

/-- Bit 0 of the last write to byte 0 of the control register, and 1 without one. -/
def lastResetBit (writes : List (ControlWrite w)) : Bool :=
  ((writes.filter ControlWrite.isResetByte).getLast?.map (·.data.getLsbD 0)).getD true

theorem controlWord_append (writes : List (ControlWrite w)) (a : ControlWrite w) :
    controlWord (writes ++ [a]) =
      if a.isControl then strobedWord (controlWord writes) a.data a.strb
      else controlWord writes := by
  rw [controlWord, List.filter_append, List.foldl_append]
  cases h : a.isControl with
  | true => simp [h, controlWord]
  | false => simp [h, controlWord]

theorem strobedWord_bit0 (old new : Word) (strb : BitVec 4) :
    (strobedWord old new strb).getLsbD 0 =
      if strb.getLsbD 0 then new.getLsbD 0 else old.getLsbD 0 := by
  have hmask : ∀ strb, (strobeMask strb).getLsbD 0 = strb.getLsbD 0 := by decide
  rw [strobedWord, BitVec.getLsbD_or, BitVec.getLsbD_and, BitVec.getLsbD_and, BitVec.getLsbD_not,
    hmask]
  cases strb.getLsbD 0 <;> simp

theorem lastResetBit_append (writes : List (ControlWrite w)) (a : ControlWrite w) :
    lastResetBit (writes ++ [a]) =
      if a.isResetByte then a.data.getLsbD 0 else lastResetBit writes := by
  rw [lastResetBit, List.filter_append]
  cases h : a.isResetByte with
  | true =>
    rw [List.filter_cons_of_pos h, List.filter_nil, List.getLast?_concat]
    rfl
  | false =>
    rw [List.filter_cons_of_neg (by rw [h]; exact Bool.false_ne_true), List.filter_nil,
      List.append_nil]
    rfl

/-- **Bit 0 of the fold is decided by the last write to byte 0.** -/
theorem controlWord_bit0 (writes : List (ControlWrite w)) :
    (controlWord writes).getLsbD 0 = lastResetBit writes := by
  induction writes using List.reverseRecOn with
  | nil => simp [controlWord, lastResetBit]
  | append_singleton writes a ih =>
    rw [controlWord_append, lastResetBit_append, ControlWrite.isResetByte]
    cases a.isControl with
    | false => exact ih
    | true =>
      rw [if_pos rfl, strobedWord_bit0, ih]
      rfl

/-! ## The invariant -/

/-- The registers of the slave in terms of the history. -/
structure ControlTracks (s : Control w) (g : ControlHistory w) : Prop where
  together : s.wready = s.awready
  awOffer : s.awready = true → g.aw = some s.awaddr
  wOffer : s.awready = true → g.wd.isSome = true
  arOffer : s.arready = true → g.ar = some s.araddr
  control : s.slvReg0 = controlWord g.writes
  status : s.slvReg1 = (BitVec.ofBool g.running).setWidth 32
  read : s.rvalid = true → s.rdata = g.readValue

theorem controlTracks_reset : ControlTracks ({} : Control w) {} where
  together := rfl
  awOffer h := by cases h
  wOffer h := by cases h
  arOffer h := by cases h
  control := rfl
  status := rfl
  read h := by cases h

namespace ControlTracks

variable {s : Control w} {g : ControlHistory w} {i : ControlIn w} (h : ControlTracks s g)

include h

/-- A ready write channel has its offer, at the latched address. -/
theorem offered_write (haw : Repeats g.aw (awChannel s i)) (hw : Repeats g.wd (wChannel s i))
    (hr : s.awready = true) : i.awvalid = true ∧ i.awaddr = s.awaddr ∧ i.wvalid = true := by
  obtain ⟨hav, haddr⟩ := haw _ (h.awOffer hr)
  obtain ⟨d, hd⟩ := Option.isSome_iff_exists.mp (h.wOffer hr)
  exact ⟨hav, haddr, (hw d hd).1⟩

theorem offered_read (har : Repeats g.ar (arChannel s i)) (hr : s.arready = true) :
    i.arvalid = true ∧ i.araddr = s.araddr := har _ (h.arOffer hr)

/-- **Address and data of a write are accepted in the same cycle.** -/
theorem accepted_together (haw : Repeats g.aw (awChannel s i))
    (hw : Repeats g.wd (wChannel s i)) :
    acceptedWrite s i = (if s.awready then some ⟨i.awaddr, i.wdata, i.wstrb⟩ else none) ∧
    ((awChannel s i).transfer.isSome = true ↔ (wChannel s i).transfer.isSome = true) := by
  cases hr : s.awready with
  | false => simp [acceptedWrite, Channel.transfer, awChannel, wChannel, h.together, hr]
  | true =>
    obtain ⟨hav, haddr, hwv⟩ := h.offered_write haw hw hr
    simp [acceptedWrite, Channel.transfer, awChannel, wChannel, h.together, hr, hav, hwv]

theorem accepted_read (har : Repeats g.ar (arChannel s i)) :
    (arChannel s i).transfer = (if s.arready then some i.araddr else none) ∧
      readAccept s i = s.arready := by
  cases hr : s.arready with
  | false => simp [Channel.transfer, arChannel, readAccept, hr]
  | true =>
    have hv := (h.offered_read har hr).1
    simp [Channel.transfer, arChannel, readAccept, hr, hv]

/-- **Step lemma**: every cycle keeps the registers in step with the history. -/
theorem next (haw : Repeats g.aw (awChannel s i)) (hw : Repeats g.wd (wChannel s i))
    (har : Repeats g.ar (arChannel s i)) :
    ControlTracks (controlNext s i) (historyNext g s i) := by
  cases hn : i.aresetn with
  | false =>
    rw [controlNext, historyNext, hn]
    exact controlTracks_reset
  | true =>
    obtain ⟨hwrite, -⟩ := h.accepted_together haw hw
    obtain ⟨hread, hra⟩ := h.accepted_read har
    have hwa : writeAccept s i = s.awready := by
      cases hr : s.awready with
      | false => simp [writeAccept, hr]
      | true =>
        obtain ⟨hav, -, hwv⟩ := h.offered_write haw hw hr
        simp [writeAccept, h.together, hr, hav, hwv]
    rw [controlNext, historyNext, hn, hwrite, hread, hra, hwa]
    constructor
    case together =>
      simp only [Bool.not_true, Bool.false_eq_true, if_false, h.together]
      rw [Bool.and_right_comm]
    case awOffer | wOffer | arOffer =>
      intro hr
      simp only [Bool.not_true, Bool.false_eq_true, if_false, Bool.and_eq_true,
        Bool.not_eq_true'] at hr ⊢
      simp [pending, awChannel, wChannel, arChannel, h.together, hr]
    case control =>
      simp only [Bool.not_true, Bool.false_eq_true, if_false]
      cases hr : s.awready with
      | false =>
        rw [Bool.false_and, if_neg (by simp), if_neg (by simp), Option.toList_none,
          List.append_nil]
        exact h.control
      | true =>
        obtain ⟨-, haddr, -⟩ := h.offered_write haw hw hr
        rw [Bool.true_and, if_pos rfl, Option.toList_some, controlWord_append,
          ControlWrite.isControl, haddr, ← h.control]
        rfl
    case status =>
      simp only [Bool.not_true, Bool.false_eq_true, if_false, h.status]
      cases g.running <;> cases i.cpuRunning <;> rfl
    case read =>
      simp only [Bool.not_true, Bool.false_eq_true, if_false]
      cases hv : s.rvalid with
      | true =>
        intro _
        rw [Bool.not_true, Bool.and_false, if_neg Bool.false_ne_true, h.read hv]
        cases s.arready <;> rfl
      | false =>
        cases hr : s.arready with
        | false =>
          intro hv'
          cases hv'
        | true =>
          -- the latched address is the one accepted now
          intro _
          obtain ⟨-, haddr⟩ := h.offered_read har hr
          simp only [Bool.not_false, Bool.and_self, if_true, Bool.false_eq_true, if_false]
          rw [haddr]
          rfl

end ControlTracks

theorem controlTracks_of_reachable {r : Clocked.Recorded (Control w) (ControlHistory w)}
    (hr : (controlHistorySystem w).Reachable r) : ControlTracks r.sys r.log := by
  refine hr.recorded (I := ControlTracks) ?_ ?_
  · rintro s rfl
    exact controlTracks_reset
  · rintro s g i - - ⟨haw, hw, har⟩ h
    exact h.next haw hw har

/-! ## The registers and the reads -/

/-- A cycle that no reset interrupts and in which a waiting response is not taken. -/
def Waits (s : Control w) (i : ControlIn w) : Prop :=
  i.aresetn = true ∧ s.rvalid = true ∧ i.rready = false

/-- **The semantics of the control slave**, in every run with a legal master: the control
register is the fold of the writes to word 0 accepted since the last reset, `cpu_reset_ext` the
last bit written to its byte 0; writes have no other effect; the two channels of a write
transfer together; and a waiting read response is the value that the addressed register had
when the read was accepted, until it is taken. -/
theorem control_semantics {r : Clocked.Recorded (Control w) (ControlHistory w)}
    (hr : (controlHistorySystem w).Reachable r) {i : ControlIn w}
    (hi : (controlHistorySystem w).allowed r i) :
    r.sys.slvReg0 = controlWord r.log.writes ∧
    cpuResetExt r.sys = lastResetBit r.log.writes ∧
    r.sys.slvReg1 = (BitVec.ofBool r.log.running).setWidth 32 ∧
    ((awChannel r.sys i).transfer.isSome = true ↔ (wChannel r.sys i).transfer.isSome = true) ∧
    (r.sys.rvalid = true → r.sys.rdata = r.log.readValue) ∧
    (Waits r.sys i → (controlNext r.sys i).rvalid = true ∧
      (controlNext r.sys i).rdata = r.sys.rdata) := by
  obtain ⟨-, haw, hw, har⟩ := hi
  have h := controlTracks_of_reachable hr
  refine ⟨h.control, ?_, h.status, (h.accepted_together haw hw).2, h.read, ?_⟩
  · rw [cpuResetExt, h.control, controlWord_bit0]
  · rintro ⟨hn, hv, hready⟩
    simp [controlNext, hn, hv, hready]

/-- A write of 0 to byte 0 of the control register, then a read of it. -/
def clearAndReadInputs : List (ControlIn 4) :=
  [{ awvalid := true, wvalid := true, wstrb := 1#4 },
    { awvalid := true, wvalid := true, wstrb := 1#4 }, { arvalid := true }, { arvalid := true }]

/-- The write releases the CPU, and the read returns the zero it left. -/
theorem control_semantics_release :
    let r := (controlHistorySystem 4).after ⟨{}, {}⟩ clearAndReadInputs
    cpuResetExt r.sys = false ∧ r.sys.rdata = 0#32 := by
  intro r
  have h0 : (controlHistorySystem 4).Reachable ⟨{}, {}⟩ := .init ⟨rfl, rfl⟩
  have hr := h0.after_allows clearAndReadInputs (by decide)
  obtain ⟨-, hreset, -, -, hread, -⟩ := control_semantics hr (i := {}) (by decide)
  exact ⟨hreset.trans (by decide), (hread (by decide)).trans (by decide)⟩

end RiscvV2
