import RiscvV2.Clocked
import RiscvV2.Handshake
import RiscvV2.Pkg

/-!
# The AXI4-Lite master (`riscv_axi_lite_master.sv`)

The master turns a held request into one bus transaction: address and data of a write are
offered together and may be taken in either order. Its state tells how far the transaction
has come (`MasterProgress`), so the bus history is always the transactions of the answered
requests, one after the other, and the beginning of the current one.

The requester is the core: it holds a request until it is answered and never reads and writes at
once. Nothing is assumed of the slave for the order and the number of transfers. That a request
is answered at all needs a slave that takes offers and answers commands, and `SlaveServes` says
so for a given run.

The order of the modules follows this: the channels, what a transaction is, the record of a run,
the invariant with its step lemma, and what follows for `req_ready`.
-/

namespace RiscvV2

open Handshake

/-! ## The master -/

/-- `state_t`. -/
inductive MasterState
  | idle | writeCmd | writeResp | readAddr | readData
  deriving DecidableEq, Repr

/-- The registers of `riscv_axi_lite_master` with 32 address and data bits. The field
defaults are the reset values. -/
structure Master where
  state : MasterState := .idle
  activeAddr : Word := 0
  activeWdata : Word := 0
  activeWstrb : BitVec 4 := 0
  awDone : Bool := false
  wDone : Bool := false
  deriving DecidableEq, Repr

/-- The inputs of `riscv_axi_lite_master` in a cycle, other than the unused response codes. -/
structure MasterIn where
  reset : Bool := false
  reqRead : Bool := false
  reqWrite : Bool := false
  reqAddr : Word := 0
  reqWdata : Word := 0
  reqWstrb : BitVec 4 := 0
  awready : Bool := false
  wready : Bool := false
  bvalid : Bool := false
  arready : Bool := false
  rvalid : Bool := false
  rdata : Word := 0
  deriving DecidableEq, Repr

/-- `aligned_word_addr`. -/
def alignedWordAddr (addr : Word) : Word := addr.extractLsb' 2 30 ++ 0#2

/-- `m_axi_awvalid`. -/
def masterAwvalid (s : Master) : Bool := s.state == .writeCmd && !s.awDone

/-- `m_axi_wvalid`. -/
def masterWvalid (s : Master) : Bool := s.state == .writeCmd && !s.wDone

/-- `m_axi_bready`. -/
def masterBready (s : Master) : Bool := s.state == .writeResp

/-- `m_axi_arvalid`. -/
def masterArvalid (s : Master) : Bool := s.state == .readAddr

/-- `m_axi_rready`. -/
def masterRready (s : Master) : Bool := s.state == .readData

/-- `req_ready`. -/
def reqReady (s : Master) (i : MasterIn) : Bool :=
  s.state == .writeResp && i.bvalid || s.state == .readData && i.rvalid

/-- `req_rdata`. -/
def reqRdata (i : MasterIn) : Word := i.rdata

/-- `riscv_axi_lite_master` after a clock edge. -/
def masterNext (s : Master) (i : MasterIn) : Master :=
  if i.reset then {}
  else
    match s.state with
    | .idle =>
      let s := { s with awDone := false, wDone := false }
      if i.reqWrite then
        { s with
          activeAddr := alignedWordAddr i.reqAddr
          activeWdata := i.reqWdata
          activeWstrb := i.reqWstrb
          state := .writeCmd }
      else if i.reqRead then
        { s with activeAddr := alignedWordAddr i.reqAddr, state := .readAddr }
      else s
    | .writeCmd =>
      { s with
        awDone := s.awDone || i.awready
        wDone := s.wDone || i.wready
        state := if (s.awDone || i.awready) && (s.wDone || i.wready) then .writeResp
          else .writeCmd }
    | .writeResp => { s with state := if i.bvalid then .idle else .writeResp }
    | .readAddr => { s with state := if i.arready then .readData else .readAddr }
    | .readData => { s with state := if i.rvalid then .idle else .readData }

/-! ## Channels

The channels of the bus, with the master on the offering side of the first two and of AR. -/

/-- The AW channel. -/
def masterAw (s : Master) (i : MasterIn) : Channel Word :=
  ⟨masterAwvalid s, s.activeAddr, i.awready⟩

/-- The W channel, data and strobes. -/
def masterW (s : Master) (i : MasterIn) : Channel (Word × BitVec 4) :=
  ⟨masterWvalid s, (s.activeWdata, s.activeWstrb), i.wready⟩

/-- The B channel. Its response code is not used by the master. -/
def masterB (s : Master) (i : MasterIn) : Channel Unit := ⟨i.bvalid, (), masterBready s⟩

/-- The AR channel. -/
def masterAr (s : Master) (i : MasterIn) : Channel Word :=
  ⟨masterArvalid s, s.activeAddr, i.arready⟩

/-- The R channel. -/
def masterR (s : Master) (i : MasterIn) : Channel Word := ⟨i.rvalid, i.rdata, masterRready s⟩

/-- **The master keeps the rule of its channels**: without a reset, an offer is repeated
until it is taken. -/
theorem master_held {s : Master} {i : MasterIn} (hreset : i.reset = false) (i' : MasterIn) :
    (masterAw s i).Held (masterAw (masterNext s i) i') ∧
      (masterW s i).Held (masterW (masterNext s i) i') ∧
      (masterAr s i).Held (masterAr (masterNext s i) i') := by
  refine ⟨fun hv hr => ?_, fun hv hr => ?_, fun hv hr => ?_⟩
  · simp only [masterAw, masterAwvalid, Bool.and_eq_true, beq_iff_eq, Bool.not_eq_true'] at hv hr
    obtain ⟨hs, hd⟩ := hv
    simp [masterAw, masterAwvalid, masterNext, hreset, hs, hd, hr]
  · simp only [masterW, masterWvalid, Bool.and_eq_true, beq_iff_eq, Bool.not_eq_true'] at hv hr
    obtain ⟨hs, hd⟩ := hv
    simp [masterW, masterWvalid, masterNext, hreset, hs, hd, hr]
  · simp only [masterAr, masterArvalid, beq_iff_eq] at hv hr
    simp [masterAr, masterArvalid, masterNext, hreset, hv, hr]

/-! ## Requests and transactions

What the master has to do, said without its states. A transaction of a write has AW and W in
either order and ends with B; that of a read is AR and then R. A history is right if it is a
sequence of whole transactions, one for each request. -/

/-- A request of the core. -/
inductive MasterRequest
  | write (addr data : Word) (strb : BitVec 4)
  | read (addr : Word)
  deriving DecidableEq, Repr

/-- The address of a request. -/
def MasterRequest.addr : MasterRequest → Word
  | .write addr _ _ => addr
  | .read addr => addr

/-- The request on the request port. -/
def masterRequest (i : MasterIn) : Option MasterRequest :=
  if i.reqWrite then some (.write i.reqAddr i.reqWdata i.reqWstrb)
  else if i.reqRead then some (.read i.reqAddr)
  else none

/-- A transfer on the bus. -/
inductive BusEvent
  | aw (addr : Word)
  | w (data : Word) (strb : BitVec 4)
  | b
  | ar (addr : Word)
  | r (data : Word)
  deriving DecidableEq, Repr

/-- The transfers of a cycle. -/
def busEvents (s : Master) (i : MasterIn) : List BusEvent :=
  ((masterAw s i).transfer.map .aw).toList ++
    ((masterW s i).transfer.map fun x => .w x.1 x.2).toList ++
    ((masterB s i).transfer.map fun _ => .b).toList ++
    ((masterAr s i).transfer.map .ar).toList ++
    ((masterR s i).transfer.map .r).toList

theorem busEvents_idle {s : Master} (hs : s.state = .idle) (i : MasterIn) :
    busEvents s i = [] := by
  simp [busEvents, Channel.transfer, masterAw, masterW, masterB, masterAr, masterR,
    masterAwvalid, masterWvalid, masterBready, masterArvalid, masterRready, hs]

theorem busEvents_writeResp {s : Master} (hs : s.state = .writeResp) (i : MasterIn) :
    busEvents s i = if i.bvalid then [.b] else [] := by
  cases hb : i.bvalid <;>
    simp [busEvents, Channel.transfer, masterAw, masterW, masterB, masterAr, masterR,
      masterAwvalid, masterWvalid, masterBready, masterArvalid, masterRready, hs, hb]

theorem busEvents_readAddr {s : Master} (hs : s.state = .readAddr) (i : MasterIn) :
    busEvents s i = if i.arready then [.ar s.activeAddr] else [] := by
  cases hr : i.arready <;>
    simp [busEvents, Channel.transfer, masterAw, masterW, masterB, masterAr, masterR,
      masterAwvalid, masterWvalid, masterBready, masterArvalid, masterRready, hs, hr]

theorem busEvents_readData {s : Master} (hs : s.state = .readData) (i : MasterIn) :
    busEvents s i = if i.rvalid then [.r i.rdata] else [] := by
  cases hr : i.rvalid <;>
    simp [busEvents, Channel.transfer, masterAw, masterW, masterB, masterAr, masterR,
      masterAwvalid, masterWvalid, masterBready, masterArvalid, masterRready, hs, hr]

/-- The bus transactions that perform a request; `v` is the word handed back. -/
inductive Transaction : MasterRequest → Word → List BusEvent → Prop
  | writeAwFirst (a d : Word) (m : BitVec 4) (v : Word) :
    Transaction (.write a d m) v [.aw (alignedWordAddr a), .w d m, .b]
  | writeWFirst (a d : Word) (m : BitVec 4) (v : Word) :
    Transaction (.write a d m) v [.w d m, .aw (alignedWordAddr a), .b]
  | read (a v : Word) : Transaction (.read a) v [.ar (alignedWordAddr a), .r v]

/-- A bus history that performs requests one after the other, each once. -/
inductive Performed : List (MasterRequest × Word) → List BusEvent → Prop
  | nil : Performed [] []
  | snoc {done : List (MasterRequest × Word)} {es tx : List BusEvent} {q : MasterRequest}
    {v : Word} : Performed done es → Transaction q v tx → Performed (done ++ [(q, v)]) (es ++ tx)

/-! ## The master under a requester that holds its requests -/

/-- The bus history, the answered requests with the words handed back, and the request that
was presented in the last cycle and not answered. -/
structure MasterLog where
  bus : List BusEvent := []
  answered : List (MasterRequest × Word) := []
  held : Option MasterRequest := none

/-- The requester never reads and writes at once and holds a request until it is answered. -/
def requesterAllowed (g : MasterLog) (_s : Master) (i : MasterIn) : Prop :=
  i.reset = false ∧ ¬ (i.reqRead = true ∧ i.reqWrite = true) ∧
    ∀ q, g.held = some q → masterRequest i = some q

/-- The record after a cycle. -/
def masterRecord (g : MasterLog) (s : Master) (i : MasterIn) : MasterLog where
  bus := g.bus ++ busEvents s i
  answered := g.answered ++
    if reqReady s i then (masterRequest i).toList.map fun q => (q, reqRdata i) else []
  held := if reqReady s i then none else masterRequest i

/-- The master out of reset with its record. Whatever the slave does is allowed. -/
def masterSystem : Clocked (Clocked.Recorded Master MasterLog) MasterIn :=
  Clocked.record ⟨fun s => s = {}, fun _ _ => True, masterNext⟩ {} requesterAllowed masterRecord

/-! ## Progress of the current transaction

The states of the master against the transfers made so far. The two flags of a write tell which
of AW and W has been taken, so that each constructor fixes the history of the current request.
-/

/-- How far the current request has come: the transfers it has made. -/
inductive MasterProgress (s : Master) : Option MasterRequest → List BusEvent → Prop
  | idle (h : s.state = .idle) : MasterProgress s none []
  | writeCmd {a d : Word} {m : BitVec 4} (h : s.state = .writeCmd)
    (ha : s.activeAddr = alignedWordAddr a) (hd : s.activeWdata = d) (hm : s.activeWstrb = m)
    (hone : ¬ (s.awDone = true ∧ s.wDone = true)) :
    MasterProgress s (some (.write a d m))
      ((if s.awDone then [.aw (alignedWordAddr a)] else []) ++
        if s.wDone then [.w d m] else [])
  | awFirst {a d : Word} {m : BitVec 4} (h : s.state = .writeResp) :
    MasterProgress s (some (.write a d m)) [.aw (alignedWordAddr a), .w d m]
  | wFirst {a d : Word} {m : BitVec 4} (h : s.state = .writeResp) :
    MasterProgress s (some (.write a d m)) [.w d m, .aw (alignedWordAddr a)]
  | readAddr {a : Word} (h : s.state = .readAddr) (ha : s.activeAddr = alignedWordAddr a) :
    MasterProgress s (some (.read a)) []
  | readData {a : Word} (h : s.state = .readData) :
    MasterProgress s (some (.read a)) [.ar (alignedWordAddr a)]

/-- A master in a read state holds a read. -/
theorem MasterProgress.read {s : Master} {held : Option MasterRequest} {es : List BusEvent}
    (h : MasterProgress s held es) (hs : s.state = .readAddr ∨ s.state = .readData) :
    ∃ a, held = some (.read a) := by
  cases h with
  | readAddr => exact ⟨_, rfl⟩
  | readData => exact ⟨_, rfl⟩
  | idle h | writeCmd h | awFirst h | wFirst h =>
    rw [h] at hs
    obtain h | h := hs <;> cases h

/-- Without a request the master is idle and has transferred nothing. -/
theorem MasterProgress.none_held {s : Master} {es : List BusEvent}
    (h : MasterProgress s none es) : s.state = .idle ∧ es = [] := by
  cases h with
  | idle h => exact ⟨h, rfl⟩

/-- A read is answered when its address has been taken, with the word of the R handshake. -/
theorem MasterProgress.read_answer {s : Master} {i : MasterIn} {a : Word} {es : List BusEvent}
    (h : MasterProgress s (some (.read a)) es) (hr : reqReady s i = true) :
    es = [.ar (alignedWordAddr a)] ∧ busEvents s i = [.r i.rdata] ∧
      (masterR s i).transfer = some i.rdata := by
  cases h with
  | readAddr hs => simp [reqReady, hs] at hr
  | readData hs =>
    have hv : i.rvalid = true := by simpa [reqReady, hs] using hr
    refine ⟨rfl, ?_, ?_⟩
    · rw [busEvents_readData hs, if_pos hv]
    · simp [Channel.transfer, masterR, masterRready, hs, hv]

/-- A write is answered when its address and data have been taken, by the B handshake. -/
theorem MasterProgress.write_answer {s : Master} {i : MasterIn} {a d : Word} {m : BitVec 4}
    {es : List BusEvent} (h : MasterProgress s (some (.write a d m)) es)
    (hr : reqReady s i = true) :
    (es = [.aw (alignedWordAddr a), .w d m] ∨ es = [.w d m, .aw (alignedWordAddr a)]) ∧
      busEvents s i = [.b] ∧ (masterB s i).transfer = some () := by
  have hresp : ∀ hs : s.state = .writeResp,
      busEvents s i = [.b] ∧ (masterB s i).transfer = some () := by
    intro hs
    have hv : i.bvalid = true := by simpa [reqReady, hs] using hr
    refine ⟨?_, ?_⟩
    · rw [busEvents_writeResp hs, if_pos hv]
    · simp [Channel.transfer, masterB, masterBready, hs, hv]
  cases h with
  | writeCmd hs => simp [reqReady, hs] at hr
  | awFirst hs => exact ⟨.inl rfl, hresp hs⟩
  | wFirst hs => exact ⟨.inr rfl, hresp hs⟩

/-- A master that offers a command offers the address of the request it holds. -/
theorem MasterProgress.offers {s : Master} {held : Option MasterRequest} {es : List BusEvent}
    (h : MasterProgress s held es)
    (hv : (masterAwvalid s || masterWvalid s || masterArvalid s) = true) :
    ∃ q, held = some q ∧ s.activeAddr = alignedWordAddr q.addr := by
  cases h with
  | writeCmd _ ha => exact ⟨_, rfl, ha⟩
  | readAddr _ ha => exact ⟨_, rfl, ha⟩
  | idle h | awFirst h | wFirst h | readData h =>
    simp [masterAwvalid, masterWvalid, masterArvalid, h] at hv

/-- The bus has seen the transactions of the answered requests, one after the other, and the
beginning of the transaction of the held request. -/
def MasterAccount (s : Master) (g : MasterLog) : Prop :=
  ∃ done cur, g.bus = done ++ cur ∧ Performed g.answered done ∧ MasterProgress s g.held cur

/-- What a cycle does: the transfers `es` continue the current transaction `cur`, or end it
with the answer `v`. -/
inductive MasterCycle (s : Master) (i : MasterIn) (held : Option MasterRequest)
    (cur : List BusEvent) : Prop
  | continues (hr : reqReady s i = false)
    (h : MasterProgress (masterNext s i) (masterRequest i) (cur ++ busEvents s i))
  | answers {q : MasterRequest} (hr : reqReady s i = true) (hq : masterRequest i = some q)
    (htx : Transaction q (reqRdata i) (cur ++ busEvents s i))
    (hidle : (masterNext s i).state = .idle)

/-- **Step lemma**, one case for each state of the master. -/
theorem masterCycle {s : Master} {g : MasterLog} {i : MasterIn} (hok : requesterAllowed g s i)
    {cur : List BusEvent} (h : MasterProgress s g.held cur) : MasterCycle s i g.held cur := by
  obtain ⟨hreset, hone, hheld⟩ := hok
  generalize hq : g.held = held at h
  cases h with
  | idle hs =>
    refine .continues (by simp [reqReady, hs]) ?_
    rw [busEvents_idle hs]
    cases hw : i.reqWrite with
    | true =>
      have hnext : masterNext s i =
          ⟨.writeCmd, alignedWordAddr i.reqAddr, i.reqWdata, i.reqWstrb, false, false⟩ := by
        simp [masterNext, hreset, hs, hw]
      have hp := MasterProgress.writeCmd (s := masterNext s i) (a := i.reqAddr)
        (d := i.reqWdata) (m := i.reqWstrb) (by rw [hnext]) (by rw [hnext]) (by rw [hnext])
        (by rw [hnext]) (by rw [hnext]; simp)
      rw [masterRequest, if_pos hw]
      rw [hnext] at hp ⊢
      exact hp
    | false =>
      cases hr : i.reqRead with
      | true =>
        rw [masterRequest, if_neg (by simp [hw]), if_pos hr]
        exact .readAddr (by simp [masterNext, hreset, hs, hw, hr])
          (by simp [masterNext, hreset, hs, hw, hr])
      | false =>
        rw [masterRequest, if_neg (by simp [hw]), if_neg (by simp [hr])]
        exact .idle (by simp [masterNext, hreset, hs, hw, hr])
  | @writeCmd a d m hs ha hd hm hone' =>
    refine .continues (by simp [reqReady, hs]) ?_
    rw [hheld _ hq]
    have hes : busEvents s i =
        (if !s.awDone && i.awready then [.aw (alignedWordAddr a)] else []) ++
          if !s.wDone && i.wready then [.w d m] else [] := by
      simp [busEvents, Channel.transfer, masterAw, masterW, masterB, masterAr, masterR,
        masterAwvalid, masterWvalid, masterBready, masterArvalid, masterRready, hs, ha, hd, hm]
      cases s.awDone <;> cases s.wDone <;> cases i.awready <;> cases i.wready <;> rfl
    have hnext : masterNext s i =
        { s with
          awDone := s.awDone || i.awready
          wDone := s.wDone || i.wready
          state := if (s.awDone || i.awready) && (s.wDone || i.wready) then .writeResp
            else .writeCmd } := by
      simp [masterNext, hreset, hs]
    cases hboth : (s.awDone || i.awready) && (s.wDone || i.wready) with
    | true =>
      -- both commands are through; which went first is in the transfers
      obtain ⟨haw, hw⟩ := Bool.and_eq_true_iff.mp hboth
      have hstate : (masterNext s i).state = .writeResp := by rw [hnext, hboth]; rfl
      rw [hes]
      cases h1 : s.awDone <;> cases h2 : s.wDone
      · rw [h1] at haw
        rw [h2] at hw
        rw [show i.awready = true from haw, show i.wready = true from hw]
        exact .awFirst hstate
      · rw [h1] at haw
        rw [show i.awready = true from haw]
        exact .wFirst hstate
      · rw [h2] at hw
        rw [show i.wready = true from hw]
        exact .awFirst hstate
      · exact absurd ⟨h1, h2⟩ hone'
    | false =>
      have hstate : (masterNext s i).state = .writeCmd := by rw [hnext, hboth]; rfl
      have hp := MasterProgress.writeCmd (s := masterNext s i) (a := a) (d := d) (m := m)
        hstate (by rw [hnext]; exact ha) (by rw [hnext]; exact hd) (by rw [hnext]; exact hm)
        (by rw [hnext]; simpa using hboth)
      have hlist : ((if s.awDone then [BusEvent.aw (alignedWordAddr a)] else []) ++
            if s.wDone then [.w d m] else []) ++ busEvents s i =
          (if (masterNext s i).awDone then [.aw (alignedWordAddr a)] else []) ++
            if (masterNext s i).wDone then [.w d m] else [] := by
        rw [hes, hnext]
        revert hboth
        cases s.awDone <;> cases s.wDone <;> cases i.awready <;> cases i.wready <;> simp
      rw [hlist]
      exact hp
  | awFirst hs =>
    have hes := busEvents_writeResp hs i
    cases hb : i.bvalid with
    | true =>
      refine .answers (by simp [reqReady, hs, hb]) (hheld _ hq) ?_
        (by simp [masterNext, hreset, hs, hb])
      rw [hes, hb]
      exact .writeAwFirst _ _ _ _
    | false =>
      refine .continues (by simp [reqReady, hs, hb]) ?_
      rw [hes, hb, hheld _ hq]
      exact .awFirst (by simp [masterNext, hreset, hs, hb])
  | wFirst hs =>
    have hes := busEvents_writeResp hs i
    cases hb : i.bvalid with
    | true =>
      refine .answers (by simp [reqReady, hs, hb]) (hheld _ hq) ?_
        (by simp [masterNext, hreset, hs, hb])
      rw [hes, hb]
      exact .writeWFirst _ _ _ _
    | false =>
      refine .continues (by simp [reqReady, hs, hb]) ?_
      rw [hes, hb, hheld _ hq]
      exact .wFirst (by simp [masterNext, hreset, hs, hb])
  | @readAddr a hs ha =>
    have hes := busEvents_readAddr hs i
    refine .continues (by simp [reqReady, hs]) ?_
    rw [hheld _ hq]
    cases hr : i.arready with
    | true =>
      rw [hes, hr, ha]
      exact .readData (by simp [masterNext, hreset, hs, hr])
    | false =>
      rw [hes, hr]
      exact .readAddr (by simp [masterNext, hreset, hs, hr])
        (by simp [masterNext, hreset, hs, hr, ha])
  | readData hs =>
    have hes := busEvents_readData hs i
    cases hr : i.rvalid with
    | true =>
      refine .answers (by simp [reqReady, hs, hr]) (hheld _ hq) ?_
        (by simp [masterNext, hreset, hs, hr])
      rw [hes, hr]
      exact .read _ _
    | false =>
      refine .continues (by simp [reqReady, hs, hr]) ?_
      rw [hes, hr, hheld _ hq]
      exact .readData (by simp [masterNext, hreset, hs, hr])

/-- **Run lemma**: the account is right in every reachable state. -/
theorem masterAccount_of_reachable {t : Clocked.Recorded Master MasterLog}
    (ht : masterSystem.Reachable t) : MasterAccount t.sys t.log := by
  refine ht.recorded (I := MasterAccount) ?_ ?_
  · rintro s rfl
    exact ⟨[], [], rfl, .nil, .idle rfl⟩
  · intro s g i _ _ hok hI
    obtain ⟨done, cur, hbus, hdone, hcur⟩ := hI
    cases masterCycle hok hcur with
    | continues hr h =>
      refine ⟨done, cur ++ busEvents s i, ?_, ?_, ?_⟩
      · rw [masterRecord, hbus, List.append_assoc]
      · simpa [masterRecord, hr] using hdone
      · simpa [masterRecord, hr] using h
    | @answers q hr hq htx hidle =>
      refine ⟨done ++ (cur ++ busEvents s i), [], ?_, ?_, ?_⟩
      · rw [masterRecord, hbus, List.append_assoc, List.append_nil]
      · have hansw : (masterRecord g s i).answered = g.answered ++ [(q, reqRdata i)] := by
          simp [masterRecord, hr, hq]
        rw [hansw]
        exact hdone.snoc htx
      -- the transaction is closed and the next one has not begun
      · have hheld : (masterRecord g s i).held = none := by simp [masterRecord, hr]
        rw [hheld]
        exact .idle hidle

/-! ## The answer to a request -/

/-- `req_ready` is up exactly in the cycle of a B or R handshake. -/
theorem reqReady_eq (s : Master) (i : MasterIn) :
    reqReady s i =
      ((masterB s i).transfer.isSome || (masterR s i).transfer.isSome) := by
  cases hs : s.state <;> cases hb : i.bvalid <;> cases hr : i.rvalid <;>
    simp [reqReady, Channel.transfer, masterB, masterR, masterBready, masterRready, hs, hb, hr]

/-- After `req_ready` the master is idle, so `req_ready` is up for one cycle only. -/
theorem reqReady_next {s : Master} {i : MasterIn} (hreset : i.reset = false)
    (h : reqReady s i = true) (i' : MasterIn) : reqReady (masterNext s i) i' = false := by
  have hidle : (masterNext s i).state = .idle := by
    rw [reqReady, Bool.or_eq_true, Bool.and_eq_true, Bool.and_eq_true, beq_iff_eq, beq_iff_eq] at h
    obtain ⟨hs, hv⟩ | ⟨hs, hv⟩ := h
    · simp [masterNext, hreset, hs, hv]
    · simp [masterNext, hreset, hs, hv]
  simp [reqReady, hidle]

/-! ## Runs

From the invariant to the liveness of a request: each state of the master is left in the end if
the slave serves, and the states come in the order of a transaction. -/

section run

variable {t : Clocked.Recorded Master MasterLog} {x : ℕ → MasterIn}

/-- The master in cycle `n` of a run. -/
def masterAt (t : Clocked.Recorded Master MasterLog) (x : ℕ → MasterIn) (n : ℕ) : Master :=
  (masterSystem.stateAt t x n).sys

/-- The record in cycle `n` of a run. -/
def masterLogAt (t : Clocked.Recorded Master MasterLog) (x : ℕ → MasterIn) (n : ℕ) : MasterLog :=
  (masterSystem.stateAt t x n).log

theorem masterAt_succ (n : ℕ) : masterAt t x (n + 1) = masterNext (masterAt t x n) (x n) := rfl

theorem masterLogAt_succ (n : ℕ) :
    masterLogAt t x (n + 1) = masterRecord (masterLogAt t x n) (masterAt t x n) (x n) := rfl

/-- A slave that takes every offer and answers every command at some time. -/
structure SlaveServes (t : Clocked.Recorded Master MasterLog) (x : ℕ → MasterIn) : Prop where
  aw : ∀ n, masterAwvalid (masterAt t x n) = true → ∃ m ≥ n, (x m).awready = true
  w : ∀ n, masterWvalid (masterAt t x n) = true → ∃ m ≥ n, (x m).wready = true
  b : ∀ n, masterBready (masterAt t x n) = true → ∃ m ≥ n, (x m).bvalid = true
  ar : ∀ n, masterArvalid (masterAt t x n) = true → ∃ m ≥ n, (x m).arready = true
  r : ∀ n, masterRready (masterAt t x n) = true → ∃ m ≥ n, (x m).rvalid = true

/-- A request is answered in cycle `n` or later. -/
def Answered (t : Clocked.Recorded Master MasterLog) (x : ℕ → MasterIn) (n : ℕ) : Prop :=
  ∃ m, n ≤ m ∧ reqReady (masterAt t x m) (x m) = true

theorem Answered.mono {n m : ℕ} (hnm : n ≤ m) (h : Answered t x m) : Answered t x n := by
  obtain ⟨k, hk, hready⟩ := h
  exact ⟨k, hnm.trans hk, hready⟩

/-- A master that waits for the response to its write gets it. -/
theorem writeResp_answered (hx : masterSystem.Run t x) (hs : SlaveServes t x) {n : ℕ}
    (h : (masterAt t x n).state = .writeResp) : Answered t x n := by
  have hwait : ∀ k, (masterAt t x k).state = .writeResp → (x k).bvalid = false →
      (masterAt t x (k + 1)).state = .writeResp := by
    intro k hk hv
    simp [masterAt_succ, masterNext, (hx k).2.1, hk, hv]
  obtain ⟨m, hm, hv, hall⟩ := waits hwait h (hs.b n (by simp [masterBready, h]))
  exact ⟨m, hm, by simp [reqReady, (hall m hm le_rfl).1, hv]⟩

/-- A master that waits for read data gets it. -/
theorem readData_answered (hx : masterSystem.Run t x) (hs : SlaveServes t x) {n : ℕ}
    (h : (masterAt t x n).state = .readData) : Answered t x n := by
  have hwait : ∀ k, (masterAt t x k).state = .readData → (x k).rvalid = false →
      (masterAt t x (k + 1)).state = .readData := by
    intro k hk hv
    simp [masterAt_succ, masterNext, (hx k).2.1, hk, hv]
  obtain ⟨m, hm, hv, hall⟩ := waits hwait h (hs.r n (by simp [masterRready, h]))
  exact ⟨m, hm, by simp [reqReady, (hall m hm le_rfl).1, hv]⟩

/-- A read command is taken and answered. -/
theorem readAddr_answered (hx : masterSystem.Run t x) (hs : SlaveServes t x) {n : ℕ}
    (h : (masterAt t x n).state = .readAddr) : Answered t x n := by
  have hwait : ∀ k, (masterAt t x k).state = .readAddr → (x k).arready = false →
      (masterAt t x (k + 1)).state = .readAddr := by
    intro k hk hv
    simp [masterAt_succ, masterNext, (hx k).2.1, hk, hv]
  obtain ⟨m, hm, hv, hall⟩ := waits hwait h (hs.ar n (by simp [masterArvalid, h]))
  have hnext : (masterAt t x (m + 1)).state = .readData := by
    simp [masterAt_succ, masterNext, (hx m).2.1, (hall m hm le_rfl).1, hv]
  exact (readData_answered hx hs hnext).mono (by omega)

/-- With its address through, a write has its data taken and is answered. -/
theorem writeData_answered (hx : masterSystem.Run t x) (hs : SlaveServes t x) {n : ℕ}
    (h : (masterAt t x n).state = .writeCmd ∧ (masterAt t x n).awDone = true) :
    Answered t x n := by
  have hwait : ∀ k,
      ((masterAt t x k).state = .writeCmd ∧ (masterAt t x k).awDone = true) →
      ((masterAt t x k).wDone || (x k).wready) = false →
      (masterAt t x (k + 1)).state = .writeCmd ∧ (masterAt t x (k + 1)).awDone = true := by
    rintro k ⟨hk, ha⟩ hw
    simp [masterAt_succ, masterNext, (hx k).2.1, hk, ha, hw]
  have htaken : ∃ m, n ≤ m ∧ ((masterAt t x m).wDone || (x m).wready) = true := by
    cases hd : (masterAt t x n).wDone with
    | true => exact ⟨n, le_rfl, by rw [hd, Bool.true_or]⟩
    | false =>
      obtain ⟨m, hm, hw⟩ := hs.w n (by simp [masterWvalid, h.1, hd])
      exact ⟨m, hm, by rw [hw, Bool.or_true]⟩
  obtain ⟨m, hm, hw, hall⟩ := waits hwait h htaken
  obtain ⟨⟨hk, ha⟩, -⟩ := hall m hm le_rfl
  have hnext : (masterAt t x (m + 1)).state = .writeResp := by
    simp [masterAt_succ, masterNext, (hx m).2.1, hk, ha, hw]
  exact (writeResp_answered hx hs hnext).mono (by omega)

/-- A write is answered. -/
theorem writeCmd_answered (hx : masterSystem.Run t x) (hs : SlaveServes t x) {n : ℕ}
    (h : (masterAt t x n).state = .writeCmd) : Answered t x n := by
  have hwait : ∀ k, (masterAt t x k).state = .writeCmd →
      ((masterAt t x k).awDone || (x k).awready) = false →
      (masterAt t x (k + 1)).state = .writeCmd := by
    intro k hk ha
    simp [masterAt_succ, masterNext, (hx k).2.1, hk, ha]
  have htaken : ∃ m, n ≤ m ∧ ((masterAt t x m).awDone || (x m).awready) = true := by
    cases hd : (masterAt t x n).awDone with
    | true => exact ⟨n, le_rfl, by rw [hd, Bool.true_or]⟩
    | false =>
      obtain ⟨m, hm, ha⟩ := hs.aw n (by simp [masterAwvalid, h, hd])
      exact ⟨m, hm, by rw [ha, Bool.or_true]⟩
  obtain ⟨m, hm, ha, hall⟩ := waits hwait h htaken
  have hk := (hall m hm le_rfl).1
  -- the data may have gone through before or with the address
  cases hw : (masterAt t x m).wDone || (x m).wready with
  | true =>
    have hnext : (masterAt t x (m + 1)).state = .writeResp := by
      simp [masterAt_succ, masterNext, (hx m).2.1, hk, ha, hw]
    exact (writeResp_answered hx hs hnext).mono (by omega)
  | false =>
    have hnext : (masterAt t x (m + 1)).state = .writeCmd ∧
        (masterAt t x (m + 1)).awDone = true := by
      simp [masterAt_succ, masterNext, (hx m).2.1, hk, ha, hw]
    exact (writeData_answered hx hs hnext).mono (by omega)

/-- A request is answered, whatever the master is doing when it comes. -/
theorem request_answered (hx : masterSystem.Run t x) (hs : SlaveServes t x) {n : ℕ}
    (h : masterRequest (x n) ≠ none) : Answered t x n := by
  cases hstate : (masterAt t x n).state with
  | idle =>
    cases hw : (x n).reqWrite with
    | true =>
      have hnext : (masterAt t x (n + 1)).state = .writeCmd := by
        simp [masterAt_succ, masterNext, (hx n).2.1, hstate, hw]
      exact (writeCmd_answered hx hs hnext).mono (by omega)
    | false =>
      have hr : (x n).reqRead = true := by
        by_contra hr
        exact h (by simp [masterRequest, hw, hr])
      have hnext : (masterAt t x (n + 1)).state = .readAddr := by
        simp [masterAt_succ, masterNext, (hx n).2.1, hstate, hw, hr]
      exact (readAddr_answered hx hs hnext).mono (by omega)
  | writeCmd => exact writeCmd_answered hx hs hstate
  | writeResp => exact writeResp_answered hx hs hstate
  | readAddr => exact readAddr_answered hx hs hstate
  | readData => exact readData_answered hx hs hstate

/-- An unanswered request is there again in the next cycle. -/
theorem request_persists (hx : masterSystem.Run t x) {q : MasterRequest} (n : ℕ)
    (hq : masterRequest (x n) = some q) (hr : reqReady (masterAt t x n) (x n) = false) :
    masterRequest (x (n + 1)) = some q := by
  obtain ⟨-, -, -, hheld⟩ := hx (n + 1)
  refine hheld q ?_
  change (masterRecord (masterLogAt t x n) (masterAt t x n) (x n)).held = some q
  simpa [masterRecord, hr] using hq

/-- **The master performs each request exactly once.** In every run:

* the transfers on the bus are the transactions of the answered requests, one after the other,
  and the beginning of the transaction of the request being held, so that no more than one
  transaction is open;
* the offers of the master stay until they are taken;
* `req_ready` is up in the cycle of a B or R handshake, for one cycle, and then hands the word
  of that handshake to the request on the port;
* if the slave serves, every request stays on the port until its one `req_ready`. -/
theorem master_performs_once (hinit : masterSystem.init t) (hx : masterSystem.Run t x) :
    (∀ n, MasterAccount (masterAt t x n) (masterLogAt t x n)) ∧
      (Stable (fun n => masterAw (masterAt t x n) (x n)) ∧
        Stable (fun n => masterW (masterAt t x n) (x n)) ∧
        Stable (fun n => masterAr (masterAt t x n) (x n))) ∧
      (∀ n, reqReady (masterAt t x n) (x n) =
        ((masterB (masterAt t x n) (x n)).transfer.isSome ||
          (masterR (masterAt t x n) (x n)).transfer.isSome)) ∧
      (∀ n, reqReady (masterAt t x n) (x n) = true →
        reqReady (masterAt t x (n + 1)) (x (n + 1)) = false ∧
        ∃ q, masterRequest (x n) = some q ∧
          (masterLogAt t x (n + 1)).answered =
            (masterLogAt t x n).answered ++ [(q, reqRdata (x n))] ∧
          ∀ v, (masterR (masterAt t x n) (x n)).transfer = some v → reqRdata (x n) = v) ∧
      (SlaveServes t x → ∀ n q, masterRequest (x n) = some q →
        ∃ m, n ≤ m ∧ reqReady (masterAt t x m) (x m) = true ∧
          ∀ k, n ≤ k → k ≤ m → masterRequest (x k) = some q ∧
            (k < m → reqReady (masterAt t x k) (x k) = false)) := by
  have hreach : ∀ n, masterSystem.Reachable (masterSystem.stateAt t x n) :=
    hx.reachable (.init hinit)
  refine ⟨fun n => masterAccount_of_reachable (hreach n), ⟨?_, ?_, ?_⟩, ?_, ?_, ?_⟩
  · exact fun n => (master_held (hx n).2.1 (x (n + 1))).1
  · exact fun n => (master_held (hx n).2.1 (x (n + 1))).2.1
  · exact fun n => (master_held (hx n).2.1 (x (n + 1))).2.2
  · exact fun n => reqReady_eq _ _
  · intro n hr
    refine ⟨reqReady_next (hx n).2.1 hr _, ?_⟩
    obtain ⟨done, cur, -, -, hcur⟩ := masterAccount_of_reachable (hreach n)
    cases masterCycle (hx n).2 hcur with
    | continues hr' _ =>
      rw [masterAt, hr'] at hr
      cases hr
    | @answers q _ hq _ _ =>
      refine ⟨q, hq, ?_, fun v hv => ?_⟩
      · rw [masterLogAt_succ]
        simp [masterRecord, hr, hq]
      · rw [Channel.transfer, Option.ite_none_right_eq_some] at hv
        exact Option.some.inj hv.2
  · intro hs n q hq
    obtain ⟨m, hm, hready, hall⟩ :=
      waits (request_persists hx) hq (request_answered hx hs (by rw [hq]; simp))
    exact ⟨m, hm, hready, hall⟩

end run

/-- A requester that stores one word to one address again and again. The slave takes every
offer at once and responds in every third cycle. -/
def storeForever : ℕ → MasterIn := fun n =>
  { reqWrite := true, reqAddr := 0x10000006#32, reqWdata := 5#32, reqWstrb := 0xf#4,
    awready := true, wready := true, bvalid := n % 3 == 2 }

theorem storeForever_run : masterSystem.Run ⟨{}, {}⟩ storeForever := by
  intro n
  refine ⟨trivial, rfl, (fun h => by cases h.1), fun q hq => ?_⟩
  cases n with
  | zero => cases hq
  | succ n =>
    change (masterRecord (masterLogAt ⟨{}, {}⟩ storeForever n)
      (masterAt ⟨{}, {}⟩ storeForever n) (storeForever n)).held = some q at hq
    rw [masterRecord] at hq
    split at hq
    · cases hq
    · exact hq

theorem storeForever_served : SlaveServes ⟨{}, {}⟩ storeForever := by
  -- there is no read to serve: the request on the port is a write in every cycle
  have hwrite : ∀ n, (masterAt ⟨{}, {}⟩ storeForever n).state ≠ .readAddr ∧
      (masterAt ⟨{}, {}⟩ storeForever n).state ≠ .readData := by
    intro n
    have hreach := storeForever_run.reachable (.init ⟨rfl, rfl⟩) n
    obtain ⟨done, cur, -, -, hcur⟩ := masterAccount_of_reachable hreach
    have hread : ∀ a, (masterLogAt ⟨{}, {}⟩ storeForever n).held ≠ some (.read a) := by
      intro a h
      obtain ⟨-, -, -, hheld⟩ := storeForever_run n
      cases hheld _ h
    refine ⟨?_, ?_⟩
    · intro h
      obtain ⟨a, ha⟩ := hcur.read (.inl h)
      exact hread a ha
    · intro h
      obtain ⟨a, ha⟩ := hcur.read (.inr h)
      exact hread a ha
  refine ⟨?_, ?_, ?_, ?_, ?_⟩
  · exact fun n _ => ⟨n, le_rfl, rfl⟩
  · exact fun n _ => ⟨n, le_rfl, rfl⟩
  · intro n _
    refine ⟨n + (2 - n % 3), Nat.le_add_right _ _, ?_⟩
    rw [storeForever, beq_iff_eq]
    omega
  · intro n h
    rw [masterArvalid, beq_iff_eq] at h
    exact absurd h (hwrite n).1
  · intro n h
    rw [masterRready, beq_iff_eq] at h
    exact absurd h (hwrite n).2

theorem storeForever_performed :
    (masterLogAt ⟨{}, {}⟩ storeForever 3).bus =
        [.aw 0x10000004#32, .w 5#32 0xf#4, .b] ∧
      ∃ m, 1 ≤ m ∧ reqReady (masterAt ⟨{}, {}⟩ storeForever m) (storeForever m) = true := by
  obtain ⟨-, -, -, -, hserved⟩ := master_performs_once ⟨rfl, rfl⟩ storeForever_run
  obtain ⟨m, hm, hready, -⟩ := hserved storeForever_served 1 _ rfl
  exact ⟨by decide, m, hm, hready⟩

end RiscvV2
