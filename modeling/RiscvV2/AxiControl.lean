import RiscvV2.Clocked
import RiscvV2.Handshake
import RiscvV2.Datapath

/-!
# The control slave (`axi_lite_control.sv`)

An AXI4-Lite slave with a control and a status register. Address and data of a write are
accepted together, one cycle after both are offered. The ready logic does not look at the
response channels: a second request can be accepted while the response to the first is still
waiting, and then only one response is given for the two. A record of the transfers counts
what the slave owes; `responded_iff` says exactly when it pays.

The books are kept for each direction: a request that is accepted puts one response on the
account, and a transfer on the response channel takes one off. A response that is still on offer
is counted as paid, since the slave holds it until it is taken. What is missing at any time is
then exactly the number of requests accepted while a response was waiting, for every master that
keeps the rules of its request channels and gives no further reset.
-/

namespace RiscvV2

open Handshake

/-! ## The slave -/

/-- The registers of `axi_lite_control` with 32 data bits; `w` is `C_S_AXI_ADDR_WIDTH`. The
field defaults are the reset values. -/
structure Control (w : ℕ) where
  awready : Bool := false
  awaddr : BitVec w := 0
  wready : Bool := false
  bresp : BitVec 2 := 0
  bvalid : Bool := false
  araddr : BitVec w := 0
  arready : Bool := false
  rdata : Word := 0
  rresp : BitVec 2 := 0
  rvalid : Bool := false
  /-- control register: bit 0 holds the CPU in reset -/
  slvReg0 : Word := 1
  /-- status register: bit 0 says that the CPU runs -/
  slvReg1 : Word := 0
  deriving DecidableEq, Repr

/-- The inputs of `axi_lite_control` in a cycle, other than the unused `PROT` signals. -/
structure ControlIn (w : ℕ) where
  aresetn : Bool := true
  awaddr : BitVec w := 0
  awvalid : Bool := false
  wdata : Word := 0
  wstrb : BitVec 4 := 0
  wvalid : Bool := false
  bready : Bool := false
  araddr : BitVec w := 0
  arvalid : Bool := false
  rready : Bool := false
  cpuRunning : Bool := false
  deriving DecidableEq, Repr

variable {w : ℕ}

/-- `cpu_reset_ext`. -/
def cpuResetExt (s : Control w) : Bool := s.slvReg0.getLsbD 0

/-- A write is accepted in this cycle. -/
def writeAccept (s : Control w) (i : ControlIn w) : Bool :=
  s.awready && i.awvalid && s.wready && i.wvalid

/-- A read is accepted in this cycle. -/
def readAccept (s : Control w) (i : ControlIn w) : Bool := s.arready && i.arvalid

/-- The word a read returns. -/
def readWord (s : Control w) : Word :=
  if s.araddr.extractLsb' 2 2 = 0#2 then s.slvReg0
  else if s.araddr.extractLsb' 2 2 = 1#2 then s.slvReg1
  else 0#32

/-- `axi_lite_control` after a clock edge. -/
def controlNext (s : Control w) (i : ControlIn w) : Control w :=
  if !i.aresetn then {}
  else
    { awready := !s.awready && i.awvalid && i.wvalid
      awaddr := if !s.awready && i.awvalid && i.wvalid then i.awaddr else s.awaddr
      wready := !s.wready && i.wvalid && i.awvalid
      bvalid :=
        if writeAccept s i && !s.bvalid then true
        else if i.bready && s.bvalid then false
        else s.bvalid
      bresp := if writeAccept s i && !s.bvalid then 0#2 else s.bresp
      arready := !s.arready && i.arvalid
      araddr := if !s.arready && i.arvalid then i.araddr else s.araddr
      rvalid :=
        if readAccept s i && !s.rvalid then true
        else if s.rvalid && i.rready then false
        else s.rvalid
      rresp := if readAccept s i && !s.rvalid then 0#2 else s.rresp
      rdata := if readAccept s i && !s.rvalid then readWord s else s.rdata
      slvReg0 :=
        if writeAccept s i && s.awaddr.extractLsb' 2 2 == 0#2 then
          strobedWord s.slvReg0 i.wdata i.wstrb
        else s.slvReg0
      slvReg1 := s.slvReg1.extractLsb' 1 31 ++ BitVec.ofBool i.cpuRunning }

/-! ## Channels and their record

The five channels of the bus as the slave sees them. The record only counts transfers, which is
all that the question of lost responses needs. -/

/-- The AW channel: the address of a write. -/
def awChannel (s : Control w) (i : ControlIn w) : Channel (BitVec w) :=
  ⟨i.awvalid, i.awaddr, s.awready⟩

/-- The W channel: the data of a write with its strobes. -/
def wChannel (s : Control w) (i : ControlIn w) : Channel (Word × BitVec 4) :=
  ⟨i.wvalid, (i.wdata, i.wstrb), s.wready⟩

/-- The B channel, on which the slave makes the offer. -/
def bChannel (s : Control w) (i : ControlIn w) : Channel (BitVec 2) :=
  ⟨s.bvalid, s.bresp, i.bready⟩

/-- The AR channel: the address of a read. -/
def arChannel (s : Control w) (i : ControlIn w) : Channel (BitVec w) :=
  ⟨i.arvalid, i.araddr, s.arready⟩

/-- The R channel, with the word that is read. -/
def rChannel (s : Control w) (i : ControlIn w) : Channel (Word × BitVec 2) :=
  ⟨s.rvalid, (s.rdata, s.rresp), i.rready⟩

/-- The numbers of transfers on the five channels so far. -/
structure ControlLog where
  aw : ℕ := 0
  w : ℕ := 0
  b : ℕ := 0
  ar : ℕ := 0
  r : ℕ := 0
  deriving DecidableEq, Repr

/-- One if the channel transfers, zero if not. -/
def beat {α : Type*} (ch : Channel α) : ℕ := ch.transfer.toList.length

theorem beat_eq {α : Type*} (ch : Channel α) : beat ch = (ch.valid && ch.ready).toNat := by
  rw [beat, Channel.transfer]
  cases ch.valid && ch.ready <;> rfl

/-- The numbers after a cycle. -/
def controlRecord (g : ControlLog) (s : Control w) (i : ControlIn w) : ControlLog where
  aw := g.aw + beat (awChannel s i)
  w := g.w + beat (wChannel s i)
  b := g.b + beat (bChannel s i)
  ar := g.ar + beat (arChannel s i)
  r := g.r + beat (rChannel s i)

/-- The slave out of reset, with its transfers counted. -/
def controlSystem (w : ℕ) : Clocked (Clocked.Recorded (Control w) ControlLog) (ControlIn w) :=
  Clocked.record ⟨fun s => s = {}, fun _ i => i.aresetn = true, controlNext⟩ {}
    (fun _ _ _ => True) controlRecord

/-- The slave `t` cycles after reset, driven by the stream `x`. -/
def controlAt (x : ℕ → ControlIn w) (t : ℕ) : Clocked.Recorded (Control w) ControlLog :=
  (controlSystem w).stateAt ⟨{}, {}⟩ x t

/-- A master that keeps the rules of the request channels. -/
structure ControlMaster (x : ℕ → ControlIn w) : Prop where
  aresetn : ∀ t, (x t).aresetn = true
  aw : Stable fun t => awChannel (controlAt x t).sys (x t)
  w : Stable fun t => wChannel (controlAt x t).sys (x t)
  ar : Stable fun t => arChannel (controlAt x t).sys (x t)

/-- **Every accepted request has had its response or is offered it now.** -/
structure Responded (t : Clocked.Recorded (Control w) ControlLog) : Prop where
  pairs : t.log.aw = t.log.w
  writes : t.log.aw = t.log.b + t.sys.bvalid.toNat
  reads : t.log.ar = t.log.r + t.sys.rvalid.toNat

/-- A request is being accepted while an earlier response still waits. -/
def Overrun (s : Control w) : Prop :=
  s.awready = true ∧ s.bvalid = true ∨ s.arready = true ∧ s.rvalid = true

instance (s : Control w) : Decidable (Overrun s) := inferInstanceAs (Decidable (_ ∨ _))

/-! ## When the slave responds

`response_account` is the step for one response channel, and it is the same for both. The loss
shows there as the case in which a request is accepted with a response waiting. -/

section run

variable {x : ℕ → ControlIn w}

theorem controlAt_sys_succ (t : ℕ) :
    (controlAt x (t + 1)).sys = controlNext (controlAt x t).sys (x t) := rfl

theorem controlAt_log_succ (t : ℕ) :
    (controlAt x (t + 1)).log = controlRecord (controlAt x t).log (controlAt x t).sys (x t) := rfl

/-- The ready signals of a compliant master's slave: both write channels are ready together,
and only when the offer is there. -/
structure ReadyForOffer (s : Control w) (i : ControlIn w) : Prop where
  together : s.wready = s.awready
  write : s.awready = true → i.awvalid = true ∧ i.wvalid = true
  read : s.arready = true → i.arvalid = true

theorem readyForOffer (hx : ControlMaster x) (t : ℕ) :
    ReadyForOffer (controlAt x t).sys (x t) := by
  induction t with
  | zero => exact ⟨rfl, (fun h => by cases h), (fun h => by cases h)⟩
  | succ t ih =>
    have haw := hx.aw t
    have hw := hx.w t
    have har := hx.ar t
    simp only [Channel.Held, awChannel, wChannel, arChannel] at haw hw har
    rw [controlAt_sys_succ]
    have hn : (!(x t).aresetn) = false := by rw [hx.aresetn t]; rfl
    refine ⟨?_, fun hready => ?_, fun hready => ?_⟩
    · simp only [controlNext, hn, Bool.false_eq_true, if_false, ih.together]
      rw [Bool.and_right_comm]
    · simp only [controlNext, hn, Bool.false_eq_true, if_false, Bool.and_eq_true,
        Bool.not_eq_true'] at hready
      obtain ⟨⟨hr, hv⟩, hv'⟩ := hready
      exact ⟨(haw hv hr).1, (hw hv' (ih.together.trans hr)).1⟩
    · simp only [controlNext, hn, Bool.false_eq_true, if_false, Bool.and_eq_true,
        Bool.not_eq_true'] at hready
      obtain ⟨hr, hv⟩ := hready
      exact (har hv hr).1

/-- A response channel: an accepted request raises `valid` unless a response waits. -/
theorem response_account : ∀ accept valid ready : Bool,
    accept.toNat + valid.toNat =
      (valid && ready).toNat +
        (if accept && !valid then true else if ready && valid then false else valid).toNat +
        (accept && valid).toNat := by
  decide

/-- One cycle of the books of the slave: an accepted request is answered later, unless a
response is waiting. -/
theorem responses_step {s : Control w} {i : ControlIn w} (hn : i.aresetn = true)
    (hready : ReadyForOffer s i) :
    beat (awChannel s i) = beat (wChannel s i) ∧
      beat (awChannel s i) + s.bvalid.toNat =
        beat (bChannel s i) + (controlNext s i).bvalid.toNat + (s.awready && s.bvalid).toNat ∧
      beat (arChannel s i) + s.rvalid.toNat =
        beat (rChannel s i) + (controlNext s i).rvalid.toNat + (s.arready && s.rvalid).toNat := by
  obtain ⟨htogether, hwrite, hread⟩ := hready
  have hwa : writeAccept s i = s.awready := by
    rw [writeAccept, htogether]
    by_cases ha : s.awready = true
    · simp [ha, hwrite ha]
    · simp [ha]
  have hra : readAccept s i = s.arready := by
    rw [readAccept]
    by_cases ha : s.arready = true
    · simp [ha, hread ha]
    · simp [ha]
  have haw : beat (awChannel s i) = s.awready.toNat := by
    rw [beat_eq]
    by_cases ha : s.awready = true
    · simp [awChannel, ha, hwrite ha]
    · simp [awChannel, ha]
  have hw : beat (wChannel s i) = s.awready.toNat := by
    rw [beat_eq]
    by_cases ha : s.awready = true
    · simp [wChannel, htogether, ha, hwrite ha]
    · simp [wChannel, htogether, ha]
  have har : beat (arChannel s i) = s.arready.toNat := by
    rw [beat_eq]
    by_cases ha : s.arready = true
    · simp [arChannel, ha, hread ha]
    · simp [arChannel, ha]
  refine ⟨haw.trans hw.symm, ?_, ?_⟩
  · have hb : (controlNext s i).bvalid =
        if s.awready && !s.bvalid then true
        else if i.bready && s.bvalid then false else s.bvalid := by
      simp [controlNext, hn, hwa]
    rw [haw, hb, beat_eq]
    exact response_account s.awready s.bvalid i.bready
  · have hr : (controlNext s i).rvalid =
        if s.arready && !s.rvalid then true
        else if i.rready && s.rvalid then false else s.rvalid := by
      simp [controlNext, hn, hra, Bool.and_comm]
    rw [har, hr, beat_eq]
    exact response_account s.arready s.rvalid i.rready

/-- The number of cycles before `t` in which `p` holds. -/
def countBefore (p : ℕ → Bool) : ℕ → ℕ
  | 0 => 0
  | t + 1 => countBefore p t + (p t).toNat

theorem countBefore_eq_zero (p : ℕ → Bool) (t : ℕ) :
    countBefore p t = 0 ↔ ∀ k < t, p k = false := by
  induction t with
  | zero => exact ⟨fun _ k hk => absurd hk (Nat.not_lt_zero k), fun _ => rfl⟩
  | succ t ih =>
    rw [countBefore, Nat.add_eq_zero_iff, ih, Bool.toNat_eq_zero]
    refine ⟨?_, ?_⟩
    · rintro ⟨hbefore, hlast⟩ k hk
      rcases Nat.lt_succ_iff_lt_or_eq.mp hk with hlt | rfl
      · exact hbefore k hlt
      · exact hlast
    · intro h
      exact ⟨fun k hk => h k (Nat.lt_succ_of_lt hk), h t (Nat.lt_succ_self t)⟩

/-- **The books of the slave**: what is missing are the responses to the requests accepted
while a response was waiting. -/
theorem responses_account (hx : ControlMaster x) (t : ℕ) :
    (controlAt x t).log.aw = (controlAt x t).log.w ∧
      (controlAt x t).log.aw = (controlAt x t).log.b + (controlAt x t).sys.bvalid.toNat +
        countBefore (fun k => (controlAt x k).sys.awready && (controlAt x k).sys.bvalid) t ∧
      (controlAt x t).log.ar = (controlAt x t).log.r + (controlAt x t).sys.rvalid.toNat +
        countBefore (fun k => (controlAt x k).sys.arready && (controlAt x k).sys.rvalid) t := by
  induction t with
  | zero => exact ⟨rfl, rfl, rfl⟩
  | succ t ih =>
    obtain ⟨hpair, hwrites, hreads⟩ := ih
    obtain ⟨h1, h2, h3⟩ := responses_step (hx.aresetn t) (readyForOffer hx t)
    rw [controlAt_sys_succ, controlAt_log_succ, countBefore, countBefore]
    simp only [controlRecord]
    refine ⟨?_, ?_, ?_⟩
    · rw [hpair, h1]
    · omega
    · omega

/-- **The slave answers every request exactly until it overruns**: at any time all accepted
requests have been answered or are being answered if and only if no request was accepted
while an earlier response was waiting. -/
theorem responded_iff (x : ℕ → ControlIn w) (hx : ControlMaster x) (t : ℕ) :
    Responded (controlAt x t) ↔ ∀ k < t, ¬ Overrun (controlAt x k).sys := by
  obtain ⟨hpair, hwrites, hreads⟩ := responses_account hx t
  have hb := countBefore_eq_zero
    (fun k => (controlAt x k).sys.awready && (controlAt x k).sys.bvalid) t
  have hr := countBefore_eq_zero
    (fun k => (controlAt x k).sys.arready && (controlAt x k).sys.rvalid) t
  refine ⟨?_, ?_⟩
  · rintro ⟨-, hw', hr'⟩ k hk (⟨h1, h2⟩ | ⟨h1, h2⟩)
    · have := hb.mp (by omega) k hk
      rw [h1, h2] at this
      cases this
    · have := hr.mp (by omega) k hk
      rw [h1, h2] at this
      cases this
  · intro h
    have hb0 := hb.mpr fun k hk => by
      by_contra hne
      exact h k hk (.inl (Bool.and_eq_true_iff.mp (Bool.eq_true_of_not_eq_false hne)))
    have hr0 := hr.mpr fun k hk => by
      by_contra hne
      exact h k hk (.inr (Bool.and_eq_true_iff.mp (Bool.eq_true_of_not_eq_false hne)))
    exact ⟨hpair, by omega, by omega⟩

end run

/-- A master that repeats a write and leaves the response waiting. -/
def repeatedWrite : ℕ → ControlIn 4 := fun _ =>
  { awvalid := true, wvalid := true, wdata := 1#32, wstrb := 0xf#4 }

theorem repeatedWrite_master : ControlMaster repeatedWrite where
  aresetn _ := rfl
  aw := stable_of_const (v := true) (p := 0#4) fun _ => ⟨rfl, rfl⟩
  w := stable_of_const (v := true) (p := (1#32, 0xf#4)) fun _ => ⟨rfl, rfl⟩
  ar := stable_of_const (v := false) (p := 0#4) fun _ => ⟨rfl, rfl⟩

/-- The second write is accepted in cycle 3, while the response to the first waits. -/
theorem response_lost :
    ∃ x : ℕ → ControlIn 4, ControlMaster x ∧ ∃ t, ¬ Responded (controlAt x t) := by
  refine ⟨repeatedWrite, repeatedWrite_master, 4, fun h => ?_⟩
  have hwrites := h.writes
  revert hwrites
  decide

theorem responded_first_write : Responded (controlAt repeatedWrite 3) :=
  (responded_iff repeatedWrite repeatedWrite_master 3).mpr (by decide)

end RiscvV2
