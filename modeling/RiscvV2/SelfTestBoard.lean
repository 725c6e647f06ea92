import RiscvV2.BoardSnapshot
import RiscvV2.SelfTestRun

/-!
# The self-test on the board (`simple_test.c`)

The host clears the data RAM, loads the program, releases the core and polls the status word;
with the done marker there it compares the results with its table. The program runs on the
pipeline, and the host reads through the second port whenever it likes. For every sequence of
read times its verdict is shown to depend on one thing only, whether it polls long enough.

Three results meet here. `SelfTestRun` says what the hart does with the program, the refinement
that the board does the same, and the snapshots of the data RAM that each read of the host finds
the memory after some number of instructions, a number that never goes back. So a poll that sees
the marker is followed by reads that see all results.
-/

namespace RiscvV2

open Rv32 (Op ByteMem Hart Program)

namespace Firmware

/-! ## The host

The steps of `main`, with the words that the host reads as functions of the number of the read.
-/

/-- `POLL_TIMEOUT` -/
def pollTimeout : ℕ := 2000000

/-- Words written one behind the other, from index `i` on. -/
def writeWords {k : ℕ} : (BitVec k → Word) → ℕ → List Word → BitVec k → Word
  | mem, _, [] => mem
  | mem, i, w :: ws => writeWords (Function.update mem (BitVec.ofNat k i) w) (i + 1) ws

/-- Step 2 of `main`: the words below `0x400` are cleared. -/
def clearDmem {k : ℕ} (mem : BitVec k → Word) : BitVec k → Word :=
  writeWords mem 0 (List.replicate 0x100 0#32)

/-- Step 3: the program is loaded. -/
def loadImem {k : ℕ} (mem : BitVec k → Word) (prog : List Word) : BitVec k → Word :=
  writeWords mem 0 prog

/-- The check of step 3, from word `i` on. -/
def verifyImem (readback : ℕ → Word) : ℕ → List Word → Bool
  | _, [] => true
  | i, w :: ws => readback i == w && verifyImem readback (i + 1) ws

/-- Step 5, with `n` polls to go: the value of `poll` after the loop. -/
def pollLoop (status : ℕ → Word) : ℕ → ℕ → ℕ
  | 0, poll => poll
  | n + 1, poll => if status poll = statusDone then poll else pollLoop status n (poll + 1)

/-- Step 6, from slot `i` on: `pass` and `fail`. -/
def checkResults (got : ℕ → Word) : ℕ → List Word → ℕ × ℕ → ℕ × ℕ
  | _, [], counts => counts
  | i, e :: es, (pass, fail) =>
    checkResults got (i + 1) es (if got i = e then (pass + 1, fail) else (pass, fail + 1))

/-- What `main` returns. `imem i` is word `i` as it is read back, and `dmem n` the data memory
in the cycle of the host's read number `n`. -/
def hostMain (imem : ℕ → Word) (dmem : ℕ → Word → Word) (b : Builder) : ℤ :=
  if verifyImem imem 0 b.prog then
    let poll := pollLoop (fun i => dmem i statusOff) pollTimeout 0
    let polls := min (poll + 1) pollTimeout
    let counts := checkResults (fun i => dmem (polls + i) (slotAddr i)) 0 b.expVal (0, 0)
    if counts.2 = 0 ∧ poll < pollTimeout then 0 else -1
  else -1

section host

variable {k : ℕ}

/-- Words behind an index do not change the word there. -/
theorem writeWords_of_lt {mem : BitVec k → Word} {i n : ℕ} {ws : List Word} (hi : i < n)
    (hlen : n + ws.length ≤ 2 ^ k) :
    writeWords mem n ws (BitVec.ofNat k i) = mem (BitVec.ofNat k i) := by
  induction ws generalizing mem n with
  | nil => rfl
  | cons w ws ih =>
    rw [List.length_cons] at hlen
    rw [writeWords, ih (by omega) (by omega), Function.update_of_ne]
    intro heq
    have hnat := congrArg BitVec.toNat heq
    rw [BitVec.toNat_ofNat, BitVec.toNat_ofNat, Nat.mod_eq_of_lt (by omega),
      Nat.mod_eq_of_lt (by omega)] at hnat
    omega

/-- The words are where they were written. -/
theorem writeWords_apply {mem : BitVec k → Word} {i j : ℕ} {ws : List Word} {w : Word}
    (hlen : i + ws.length ≤ 2 ^ k) (hw : ws[j]? = some w) :
    writeWords mem i ws (BitVec.ofNat k (i + j)) = w := by
  induction ws generalizing mem i j with
  | nil => cases hw
  | cons w' ws ih =>
    rw [List.length_cons] at hlen
    cases j with
    | zero =>
      obtain rfl := Option.some.inj hw
      exact (writeWords_of_lt (Nat.lt_succ_self i) (by omega)).trans (Function.update_self _ _ _)
    | succ j =>
      have hidx : i + (j + 1) = i + 1 + j := by omega
      rw [writeWords, hidx]
      exact ih (by omega) hw

/-- Cleared words are zero. -/
theorem writeWords_replicate {mem : BitVec k → Word} {i n : ℕ} (hi : i < n) (hn : n ≤ 2 ^ k) :
    writeWords mem 0 (List.replicate n 0#32) (BitVec.ofNat k i) = 0#32 := by
  have hzero : (List.replicate n (0#32 : Word))[i]? = some 0#32 := by
    rw [List.getElem?_replicate, if_pos hi]
  have happly : writeWords mem 0 (List.replicate n 0#32) (BitVec.ofNat k (0 + i)) = 0#32 :=
    writeWords_apply (by simpa using hn) hzero
  rwa [Nat.zero_add] at happly

theorem verifyImem_of_eq {readback : ℕ → Word} {i : ℕ} {ws : List Word}
    (h : ∀ j w, ws[j]? = some w → readback (i + j) = w) : verifyImem readback i ws = true := by
  induction ws generalizing i with
  | nil => rfl
  | cons w ws ih =>
    have hhead : readback i = w := h 0 w rfl
    rw [verifyImem, hhead, beq_self_eq_true, Bool.true_and]
    refine ih fun j w' hw' => ?_
    have hidx : i + 1 + j = i + (j + 1) := by omega
    rw [hidx]
    exact h (j + 1) w' hw'

/-- The loop ends at the first poll that sees the marker. -/
theorem pollLoop_spec (status : ℕ → Word) (n p : ℕ) :
    pollLoop status n p = p + n ∧ (∀ i, p ≤ i → i < p + n → status i ≠ statusDone) ∨
      pollLoop status n p < p + n ∧ status (pollLoop status n p) = statusDone := by
  induction n generalizing p with
  | zero => exact .inl ⟨rfl, fun i hi hi' => absurd hi' (by omega)⟩
  | succ n ih =>
    rw [pollLoop]
    split_ifs with hp
    · exact .inr ⟨by omega, hp⟩
    · rcases ih (p + 1) with ⟨hpoll, hnone⟩ | ⟨hlt, hdone⟩
      · refine .inl ⟨by omega, fun i hi hi' => ?_⟩
        rcases Nat.eq_or_lt_of_le hi with rfl | hi
        · exact hp
        · exact hnone i hi (by omega)
      · exact .inr ⟨by omega, hdone⟩

/-- No result fails exactly if all are as expected. -/
theorem checkResults_fail (got : ℕ → Word) (i : ℕ) (es : List Word) (counts : ℕ × ℕ) :
    (checkResults got i es counts).2 = 0 ↔
      counts.2 = 0 ∧ ∀ j e, es[j]? = some e → got (i + j) = e := by
  induction es generalizing i counts with
  | nil => exact ⟨fun h => ⟨h, fun j e he => absurd he (by simp)⟩, And.left⟩
  | cons e es ih =>
    obtain ⟨pass, fail⟩ := counts
    have hidx : ∀ j, i + 1 + j = i + (j + 1) := fun j => by omega
    rw [checkResults, ih]
    simp only [hidx]
    constructor
    · rintro ⟨hcount, hrest⟩
      split_ifs at hcount with he
      refine ⟨hcount, fun j e' he' => ?_⟩
      cases j with
      | zero => exact he.trans (Option.some.inj he')
      | succ j => exact hrest j e' he'
    · rintro ⟨hcount, hall⟩
      refine ⟨?_, fun j e' he' => hall (j + 1) e' he'⟩
      have hhead : got i = e := hall 0 e rfl
      rw [if_pos hhead]
      exact hcount

end host

/-! ## The board

A board with the program loaded is a board whose program is in the instruction RAM, and its runs
are runs of the hart. `HasRoom` lists what is needed of the parameters. -/

/-- The board has room for the program and the data of the self-test, and starts at 0. -/
structure HasRoom (w : WrapperConfig) (ops : List Op) : Prop where
  resetPc : w.resetPc = 0#32
  imem : ops.length ≤ 2 ^ w.addrWidth
  dmem : 0x400 ≤ 2 ^ (w.addrWidth + 2)
  region : ∀ addr : Word, addr.toNat < 0x400 → inAxiRegion w addr = false

/-- A run that begins as the host has left the block RAMs. -/
structure Loaded {w : WrapperConfig} (R : BoardRun w) (ops : List Op) : Prop where
  room : HasRoom w ops
  imem : ∃ mem, R.imem = loadImem mem (ops.map Op.encode)
  dmem : ∃ mem, R.start.sys.dmem.mem = clearDmem mem

section board

variable {w : WrapperConfig} {R : BoardRun w} {ops : List Op} {tests : List Test}

theorem HasRoom.inRam (hroom : HasRoom w ops) {addr : Word} (h : addr.toNat < 0x400) :
    InRam w addr :=
  ⟨h.trans_le hroom.dmem, hroom.region addr h⟩

theorem HasRoom.length (hroom : HasRoom w ops) : 4 * ops.length ≤ 2 ^ 32 := by
  have hpow : 2 ^ w.addrWidth * 4 ≤ 2 ^ 30 * 4 :=
    Nat.mul_le_mul_right 4 (Nat.pow_le_pow_right (by decide) (by have := w.addrWidth_le; omega))
  have himem := hroom.imem
  omega

/-- A word of the byte memory. -/
theorem load_word_bytes (mem : DataMem) {addr : Word} (hal : addr.toNat % 4 = 0) :
    mem.bytes.load .word false addr = mem (wordIndex addr) := by
  have hload : lsuLoadData 2#2 false (addr.extractLsb' 0 2) (mem (wordIndex addr)) =
      mem.bytes.load (widthOf 2#2) false addr := lsuLoadData_eq (by decide) hal false mem
  exact hload.symm

/-- The word index of an address. -/
theorem bramIndex_eq_ofNat (addr : Word) :
    bramIndex w addr = BitVec.ofNat w.addrWidth (addr.toNat / 4) := by
  refine BitVec.eq_of_toNat_eq ?_
  rw [bramIndex, BitVec.extractLsb'_toNat, BitVec.toNat_ofNat, Nat.shiftRight_eq_div_pow]

variable (hl : Loaded R ops)

include hl

theorem Loaded.holdsProgram : HoldsProgram R.program (Program.ofList ops) := by
  intro addr op hop
  obtain ⟨mem, himem⟩ := hl.imem
  rw [Program.ofList] at hop
  split_ifs at hop with hal
  · have hw : (ops.map Op.encode)[addr.toNat / 4]? = some op.encode := by
      rw [List.getElem?_map, hop]
      rfl
    have hlen := hl.room.imem
    have happly : loadImem mem (ops.map Op.encode)
        (BitVec.ofNat w.addrWidth (0 + addr.toNat / 4)) = op.encode :=
      writeWords_apply (by simpa using hlen) hw
    rw [Nat.zero_add] at happly
    rw [BoardRun.program, boardProgram, himem, bramIndex_eq_ofNat]
    exact happly
  · cases hop

/-- The data RAM starts with zeros. -/
theorem Loaded.data_eq_zero {addr : Word} (h : addr.toNat < 0x400) :
    R.data (wordIndex addr) = 0#32 := by
  obtain ⟨mem, hdmem⟩ := hl.dmem
  have hlen := hl.room.dmem
  rw [BoardRun.data, boardData_wordIndex, hdmem, bramIndex_eq_ofNat]
  refine writeWords_replicate (by omega) ?_
  rw [Nat.pow_add] at hlen
  omega

end board

section run

variable {w : WrapperConfig} {R : BoardRun w} {tests : List Test}

/-- The hart that the board runs. -/
def boardHart (R : BoardRun w) : Hart Csr := hartReset (coreConfig w) R.data

/-- The run of the self-test that the board carries out. -/
abbrev BoardCompletes (R : BoardRun w) (tests : List Test) (n : ℕ) (h' : Hart Csr) : Prop :=
  Completes (corePlatform (coreConfig w)) (Program.ofList (programOps tests)) tests (boardHart R)
    n h'

theorem Loaded.exists_completes (hl : Loaded R (programOps tests)) (hf : Fits 0 tests) :
    ∃ n h', BoardCompletes R tests n h' := by
  have hpc : (boardHart R).pc = 0#32 := hl.room.resetPc
  refine Firmware.exists_completes (fun _ _ => rfl) hf ?_ ?_
  · rw [hpc]
    rfl
  · rw [hpc]
    exact Program.holds_ofList hl.room.length

variable {n : ℕ} {h' : Hart Csr} (hl : Loaded R (programOps tests))
  (hc : BoardCompletes R tests n h')

include hl hc

theorem Loaded.staysInRam : R.StaysInRam := by
  intro k a ha
  obtain ⟨h, hrun⟩ := hc.exists_run k
  obtain ⟨j, g, op, hg, hop, o, ho, haddr⟩ := hart_accesses hl.holdsProgram hrun ha
  rw [← haddr]
  exact hl.room.inRam (hc.access_lt hg hop o ho)

/-- **What the host reads** at a word address of the data: the memory of the hart after the
instructions whose stores are in the RAM. -/
theorem Loaded.host_reads (hquiet : R.Quiet) (t : ℕ) {addr : Word} (h : addr.toNat < 0x400)
    (hal : addr.toNat % 4 = 0) :
    ∃ g, (boardHart R).run (corePlatform (coreConfig w)) (Program.ofList (programOps tests))
        (R.stored t) = some g ∧
      (R.state t).sys.dmem.mem (bramIndex w addr) = g.mem.load .word false addr := by
  obtain ⟨g, hrun⟩ := hc.exists_run (R.stored t)
  refine ⟨g, hrun, ?_⟩
  obtain ⟨-, -, -, hmem⟩ := hart_seqRun hl.holdsProgram hrun
  rw [R.dataRam_eq hquiet (hl.staysInRam hc) t (hl.room.inRam h),
    ← load_word_bytes (R.machine (R.stored t)).mem hal]
  exact congrArg (fun m : ByteMem => m.load .word false addr) hmem

omit hc in
/-- The status word before the run. -/
theorem Loaded.status_ne : status (boardHart R).mem ≠ statusDone := by
  have hword : status (boardHart R).mem = R.data (wordIndex statusOff) :=
    load_word_bytes R.data (by decide)
  rw [hword, hl.data_eq_zero (by decide)]
  decide

/-- The marker is in the RAM with the stores of the first `n` instructions, not before. -/
theorem Loaded.marker_iff (hquiet : R.Quiet) (t : ℕ) :
    (R.state t).sys.dmem.mem (bramIndex w statusOff) = statusDone ↔ n ≤ R.stored t := by
  obtain ⟨g, hrun, hread⟩ := hl.host_reads hc hquiet t (by decide : statusOff.toNat < 0x400) rfl
  rw [hread]
  rcases Nat.lt_or_ge (R.stored t) n with hlt | hge
  · have hstatus := hc.status_of_lt hlt hrun
    refine ⟨fun hdone => absurd (hstatus.symm.trans hdone) hl.status_ne, fun hle => ?_⟩
    exact absurd hle (Nat.not_le_of_lt hlt)
  · obtain rfl := Option.some.inj (hrun.symm.trans (hc.run_of_le hge))
    exact ⟨fun _ => hge, fun _ => hc.marker⟩

/-- With the marker all results are there. -/
theorem Loaded.slots_of_marker (hquiet : R.Quiet) (hf : Fits 0 tests) {t i : ℕ} {v : Word}
    (ht : n ≤ R.stored t) (hv : (values (boardHart R).mem 0 tests)[i]? = some v) :
    (R.state t).sys.dmem.mem (bramIndex w (slotAddr i)) = v := by
  have hi : i < 112 := by
    have hlen := (List.getElem?_eq_some_iff.mp hv).1
    rw [values_length] at hlen
    have hslots := hf.slots
    omega
  have hslot := slotAddr_toNat hi
  obtain ⟨g, hrun, hread⟩ := hl.host_reads hc hquiet t (by omega : (slotAddr i).toNat < 0x400)
    (by omega)
  obtain rfl := Option.some.inj (hrun.symm.trans (hc.run_of_le ht))
  exact hread.trans (hc.slots i v hv)

end run

/-! ## The verdict -/

section verdict

variable {w : WrapperConfig} {R : BoardRun w} {tests : List Test}

/-- The word of the data RAM that the host reads in cycle `t`. -/
def hostRead (R : BoardRun w) (t : ℕ) (addr : Word) : Word :=
  (R.state t).sys.dmem.mem (bramIndex w addr)

/-- A word of the program, read back. -/
def hostReadback (R : BoardRun w) (i : ℕ) : Word := R.imem (BitVec.ofNat w.addrWidth i)

theorem Loaded.verifies (hl : Loaded R (programOps tests)) :
    verifyImem (hostReadback R) 0 ((programOps tests).map Op.encode) = true := by
  obtain ⟨mem, himem⟩ := hl.imem
  have hlen := hl.room.imem
  refine verifyImem_of_eq fun j v hv => ?_
  rw [hostReadback, himem]
  exact writeWords_apply (by simpa using hlen) hv

/-- **The verdict of the host**, for any list of tests: there is a cycle from which on the
polls see the marker, and `main` returns 0 exactly if one of its polls comes then and the
table has the values of the ISA. -/
theorem Loaded.hostMain_eq_zero (hl : Loaded R (programOps tests)) (hf : Fits 0 tests)
    (hquiet : R.Quiet) :
    ∃ T, ∀ time : ℕ → ℕ, Monotone time →
      (hostMain (hostReadback R) (fun i => hostRead R (time i)) ((generate tests).run {}).2 = 0 ↔
        (∃ i < pollTimeout, T ≤ time i) ∧
          tests.map Test.expected = values (boardHart R).mem 0 tests) := by
  obtain ⟨n, h', hc⟩ := hl.exists_completes hf
  have hram := hl.staysInRam hc
  obtain ⟨T, hT⟩ : ∃ T, ∀ t, T ≤ t ↔ n ≤ R.stored t := by
    have hex := R.exists_le_stored hquiet hram n
    refine ⟨Nat.find hex, fun t => ⟨fun ht => ?_, fun ht => Nat.find_min' hex ht⟩⟩
    exact (Nat.find_spec hex).trans (R.stored_mono hquiet hram ht)
  refine ⟨T, fun time htime => ?_⟩
  have hmarker : ∀ t, hostRead R t statusOff = statusDone ↔ T ≤ t := fun t =>
    (hl.marker_iff hc hquiet t).trans (hT t).symm
  have hslots : ∀ t i v, T ≤ t → (values (boardHart R).mem 0 tests)[i]? = some v →
      hostRead R t (slotAddr i) = v := fun t i v ht hv =>
    hl.slots_of_marker hc hquiet hf ((hT t).mp ht) hv
  have hlen : tests.length ≤ 512 := by
    have hslots := hf.slots
    omega
  rw [generate_run hlen, hostMain, if_pos hl.verifies]
  dsimp only
  rcases pollLoop_spec (fun i => hostRead R (time i) statusOff) pollTimeout 0 with
    ⟨hpoll, hnone⟩ | ⟨hlt, hdone⟩
  · -- no poll sees the marker
    rw [hpoll, Nat.zero_add, if_neg fun h => Nat.lt_irrefl _ h.2]
    refine ⟨fun h => absurd h (by decide), ?_⟩
    rintro ⟨⟨i, hi, hTi⟩, -⟩
    rw [Nat.zero_add] at hnone
    exact absurd ((hmarker _).mpr hTi) (hnone i (Nat.zero_le i) hi)
  · generalize pollLoop (fun i => hostRead R (time i) statusOff) pollTimeout 0 = poll at *
    rw [Nat.zero_add] at hlt
    have hseen := (hmarker _).mp hdone
    have hgot : ∀ j v, (values (boardHart R).mem 0 tests)[j]? = some v →
        hostRead R (time (min (poll + 1) pollTimeout + j)) (slotAddr j) = v := fun j v hv =>
      hslots _ j v (hseen.trans (htime (by omega))) hv
    have hfail : (checkResults (fun i => hostRead R (time (min (poll + 1) pollTimeout + i))
        (slotAddr i)) 0 (tests.map Test.expected) (0, 0)).2 = 0 ↔
          tests.map Test.expected = values (boardHart R).mem 0 tests := by
      rw [checkResults_fail]
      simp only [Nat.zero_add, true_and]
      constructor
      · intro hall
        refine List.ext_getElem? fun j => ?_
        cases hv : (values (boardHart R).mem 0 tests)[j]? with
        | none =>
          rw [List.getElem?_eq_none_iff, values_length] at hv
          rw [List.getElem?_eq_none_iff, List.length_map]
          exact hv
        | some v =>
          have hj : j < (tests.map Test.expected).length := by
            rw [List.length_map, ← values_length (boardHart R).mem 0 tests]
            exact (List.getElem?_eq_some_iff.mp hv).1
          have he := List.getElem?_eq_getElem hj
          rw [he, ← hall j _ he, hgot j v hv]
      · intro heq j e he
        rw [heq] at he
        exact hgot j e he
    by_cases heq : tests.map Test.expected = values (boardHart R).mem 0 tests
    · rw [if_pos ⟨hfail.mpr heq, hlt⟩]
      exact ⟨fun _ => ⟨⟨poll, hlt, hseen⟩, heq⟩, fun _ => rfl⟩
    · rw [if_neg fun h => heq (hfail.mp h.1)]
      exact ⟨fun h => absurd h (by decide), fun h => absurd h.2 heq⟩

end verdict

/-- The buffers of the firmware are large enough for what `build_program` writes. -/
theorem built_length : built.prog.length = 206 ∧ built.expVal.length = 50 := by
  rw [built_eq]
  decide +kernel

/-- **The self-test passes on the board.** On every board that starts at address 0 and has a
block RAM of a kilobyte or more outside of the peripheral region, as long as no interrupt line
is raised, whatever was in the block RAMs before the host cleared and loaded them, whenever the
host reads and whatever the control bus does short of a reset: from some cycle on the polls see
the marker, and `main` returns 0 exactly if one of its polls comes then. -/
theorem self_test_on_board {w : WrapperConfig} (R : BoardRun w) (hquiet : R.Quiet)
    (hreset : w.resetPc = 0#32) (hroom : 0x400 ≤ 2 ^ (w.addrWidth + 2))
    (hregion : ∀ addr : Word, addr.toNat < 0x400 → inAxiRegion w addr = false)
    {imem₀ dmem₀ : BitVec w.addrWidth → Word} (himem : R.imem = loadImem imem₀ built.prog)
    (hdmem : R.start.sys.dmem.mem = clearDmem dmem₀) :
    ∃ T, ∀ time : ℕ → ℕ, Monotone time →
      (hostMain (hostReadback R) (fun i => hostRead R (time i)) built = 0 ↔
        ∃ i < pollTimeout, T ≤ time i) := by
  have hlength : (programOps selfTests).length ≤ 2 ^ w.addrWidth := by
    have hbuilt := built_length.1
    rw [built_eq, List.length_map] at hbuilt
    rw [Nat.pow_add] at hroom
    omega
  have hl : Loaded R (programOps selfTests) := by
    refine ⟨⟨hreset, hlength, hroom, hregion⟩, ⟨imem₀, ?_⟩, ⟨dmem₀, hdmem⟩⟩
    rw [himem, built_eq]
  obtain ⟨T, hT⟩ := hl.hostMain_eq_zero fits_selfTests hquiet
  refine ⟨T, fun time htime => ?_⟩
  have hverdict := hT time htime
  rw [← buildProgram_eq, values_selfTests] at hverdict
  exact hverdict.trans (and_iff_left rfl)

/-- The first kilobyte is not in the peripheral region of the default parameters. -/
theorem inAxiRegion_plain {addr : Word} (h : addr.toNat < 0x400) :
    inAxiRegion plainBoard addr = false := by
  have hbit : addr.getLsbD 28 = false := Nat.testBit_lt_two_pow (h.trans (by decide))
  rw [inAxiRegion, beq_eq_false_iff_ne]
  intro heq
  have hmask := congrArg (BitVec.getLsbD · 28) heq
  simp only [BitVec.getLsbD_and, hbit, Bool.false_and] at hmask
  revert hmask
  decide

theorem writeWords_zero {k : ℕ} (i n : ℕ) :
    writeWords (fun _ : BitVec k => 0#32) i (List.replicate n 0#32) = fun _ => 0#32 := by
  induction n generalizing i with
  | zero => rfl
  | succ n ih =>
    have hupdate : Function.update (fun _ : BitVec k => 0#32) (BitVec.ofNat k i) 0#32 =
        fun _ => 0#32 := Function.update_eq_self _ _
    rw [List.replicate_succ, writeWords, hupdate, ih]

/-- A control bus that is left alone. -/
theorem control_idle : ({} : WrapperIn 32).aresetn = true ∧
    ({} : WrapperIn 32).sAxiCtrlAwvalid = false := ⟨rfl, rfl⟩

/-- The board with the default parameters, after the host has loaded the self-test. -/
def selfTestRun : BoardRun plainBoard :=
  programRun (loadImem (fun _ => 0#32) built.prog) {} control_idle

theorem self_test_on_board_plain :
    ∃ T, hostMain (hostReadback selfTestRun) (fun i => hostRead selfTestRun (T + i)) built =
      0 := by
  have hzero : selfTestRun.start.sys.dmem.mem = clearDmem fun _ => 0#32 :=
    (writeWords_zero 0 0x100).symm
  have himem : selfTestRun.imem = loadImem (fun _ => 0#32) built.prog := by
    have hprogram : ∀ program, (programRun program {} control_idle).imem = program := fun _ => rfl
    exact hprogram _
  have hquiet : selfTestRun.Quiet := fun _ => rfl
  obtain ⟨T, hT⟩ := self_test_on_board selfTestRun hquiet rfl (by decide)
    (fun _ => inAxiRegion_plain) himem hzero
  refine ⟨T, (hT (T + ·) fun i j hij => Nat.add_le_add_left hij T).mpr ⟨0, ?_, le_rfl⟩⟩
  rw [pollTimeout]
  omega

end Firmware

end RiscvV2
