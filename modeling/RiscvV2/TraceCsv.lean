import Mathlib.Data.Int.Notation
import Mathlib.Data.List.Basic
import Mathlib.Tactic.Common

/-!
# Instruction traces

A regression run makes two instruction traces for a seed, one from the log of Spike and one
from the log of the RTL simulation, and writes them as CSV files with the same columns. The
lines of a log are given by what the regular expressions of the scripts find in them. Of the
columns the comparison looks at `gpr` only: the updates `<register>:<value>` of an
instruction, joined with semicolons.

Two properties of these files are needed for the comparison. Every update that a script writes
can be split again at its colon and its semicolons, since register names have neither; and every
number that a regular expression has matched can be read by `int`. So whatever the logs are, the
comparison finds proper updates and does not break off (`wellFormed_spike`, `wellFormed_rtl`).
-/

namespace Regression

/-- A Python string, as its characters. -/
abbrev Text := List Char

/-! ## Numbers

Python's `int(s, 16)` takes more than the regular expressions match: spaces, a sign, a prefix
and underscores. All of it is modelled, and for a matched text it is the value of its digits. -/

/-- The value of a digit of base 16. -/
def hexDigit? (c : Char) : Option ℕ :=
  if '0' ≤ c ∧ c ≤ '9' then some (c.toNat - 48)
  else if 'a' ≤ c ∧ c ≤ 'f' then some (c.toNat - 87)
  else if 'A' ≤ c ∧ c ≤ 'F' then some (c.toNat - 55)
  else none

/-- A text that `[0-9a-fA-F]+` matches. -/
structure HexText where
  text : Text
  ne_nil : text ≠ []
  digits : ∀ c ∈ text, (hexDigit? c).isSome

/-- A text that `\d+` matches. -/
structure DecText where
  text : Text
  ne_nil : text ≠ []
  digits : ∀ c ∈ text, c.isDigit

/-- The number that the digits stand for. -/
def HexText.value (h : HexText) : ℕ :=
  h.text.foldl (fun n c => 16 * n + (hexDigit? c).getD 0) 0

/-- The number that the digits stand for. -/
def DecText.value (d : DecText) : ℕ := d.text.foldl (fun n c => 10 * n + (c.toNat - 48)) 0

/-- The space characters of ASCII. -/
def isSpace (c : Char) : Bool := c.toNat ∈ [9, 10, 11, 12, 13, 28, 29, 30, 31, 32]

/-- `s.strip()`. -/
def strip (s : Text) : Text := ((s.dropWhile isSpace).reverse.dropWhile isSpace).reverse

/-- Digits of base 16, with single underscores between them. -/
def hexDigits (s : Text) : Option ℕ :=
  let groups := s.splitOn '_'
  if [] ∈ groups then none
  else groups.flatten.foldlM (fun n c => (hexDigit? c).map (16 * n + ·)) 0

/-- The prefix `0x` is optional, and an underscore may follow it. -/
def hexLiteral : Text → Option ℕ
  | '0' :: x :: s =>
    if x = 'x' ∨ x = 'X' then hexDigits (if s.head? = some '_' then s.tail else s)
    else hexDigits ('0' :: x :: s)
  | s => hexDigits s

/-- `int(s, 16)`, on ASCII; `none` stands for the `ValueError`. -/
def intOfHex (s : Text) : Option ℤ :=
  match strip s with
  | '-' :: s => (hexLiteral s).map fun n => -(n : ℤ)
  | '+' :: s => (hexLiteral s).map Int.ofNat
  | s => (hexLiteral s).map Int.ofNat

theorem not_isSpace_of_hexDigit {c : Char} (h : (hexDigit? c).isSome) : isSpace c = false := by
  rw [Bool.eq_false_iff]
  intro hspace
  simp only [isSpace, List.mem_cons, List.not_mem_nil, or_false, decide_eq_true_eq] at hspace
  simp only [hexDigit?, Char.le_def, UInt32.le_iff_toNat_le] at h
  change c.val.toNat = _ ∨ _ at hspace
  split_ifs at h with h1 h2 h3 <;> simp at * <;> omega

theorem strip_of_not_space {s : Text} (h : ∀ c ∈ s, isSpace c = false) : strip s = s := by
  have hdrop : ∀ t : Text, (∀ c ∈ t, isSpace c = false) → t.dropWhile isSpace = t := by
    intro t ht
    cases t with
    | nil => rfl
    | cons c t => exact List.dropWhile_cons_of_neg (by simp [ht c (by simp)])
  rw [strip, hdrop s h, hdrop s.reverse (by simpa using h), List.reverse_reverse]

namespace HexText

variable (h : HexText)

theorem not_mem {c : Char} (hc : hexDigit? c = none) : c ∉ h.text := by
  intro hmem
  have hdigit := h.digits c hmem
  rw [hc] at hdigit
  cases hdigit

theorem foldlM_digits {s : Text} (hs : ∀ c ∈ s, (hexDigit? c).isSome) (n : ℕ) :
    s.foldlM (fun n c => (hexDigit? c).map (16 * n + ·)) n =
      some (s.foldl (fun n c => 16 * n + (hexDigit? c).getD 0) n) := by
  induction s generalizing n with
  | nil => rfl
  | cons c s ih =>
    obtain ⟨d, hd⟩ := Option.isSome_iff_exists.mp (hs c (by simp))
    rw [List.foldlM_cons, List.foldl_cons, hd]
    exact ih (fun c hc => hs c (by simp [hc])) _

theorem hexDigits_text : hexDigits h.text = some h.value := by
  have hsplit : h.text.splitOn '_' = [h.text] :=
    List.splitOn_eq_singleton (h.not_mem (by decide))
  rw [hexDigits, hsplit, if_neg (by simpa using h.ne_nil), List.flatten_singleton]
  exact foldlM_digits h.digits 0

theorem hexLiteral_text : hexLiteral h.text = some h.value := by
  have hx := h.not_mem (c := 'x') (by decide)
  have hX := h.not_mem (c := 'X') (by decide)
  have hdigits := h.hexDigits_text
  unfold hexLiteral
  split
  next x s heq =>
    rw [heq] at hx hX hdigits
    rw [if_neg (by rintro (rfl | rfl) <;> simp at hx hX), hdigits]
  next => exact hdigits

/-- The scripts can read every number that their regular expressions find. -/
theorem intOfHex_text : intOfHex h.text = some (h.value : ℤ) := by
  have hstrip : strip h.text = h.text :=
    strip_of_not_space fun c hc => not_isSpace_of_hexDigit (h.digits c hc)
  have hminus := h.not_mem (c := '-') (by decide)
  have hplus := h.not_mem (c := '+') (by decide)
  have hliteral := h.hexLiteral_text
  rw [intOfHex, hstrip]
  split
  next heq => simp [heq] at hminus
  next heq => simp [heq] at hplus
  next => rw [hliteral]; rfl

end HexText

/-! ## Registers

The Spike log names a register by its number with an `x` in front and the RTL log by the number
alone. Both are translated to the ABI name. -/

/-- `ABI_NAMES`. -/
def abiNames : List Text :=
  ["zero", "ra", "sp", "gp", "tp", "t0", "t1", "t2", "s0", "s1", "a0", "a1", "a2", "a3", "a4",
    "a5", "a6", "a7", "s2", "s3", "s4", "s5", "s6", "s7", "s8", "s9", "s10", "s11", "t3", "t4",
    "t5", "t6"].map String.toList

/-- The table of `gpr_to_abi`. -/
def switcher : List (Text × Text) :=
  [("x0", "zero"), ("x1", "ra"), ("x2", "sp"), ("x3", "gp"), ("x4", "tp"), ("x5", "t0"),
    ("x6", "t1"), ("x7", "t2"), ("x8", "s0"), ("x9", "s1"), ("x10", "a0"), ("x11", "a1"),
    ("x12", "a2"), ("x13", "a3"), ("x14", "a4"), ("x15", "a5"), ("x16", "a6"), ("x17", "a7"),
    ("x18", "s2"), ("x19", "s3"), ("x20", "s4"), ("x21", "s5"), ("x22", "s6"), ("x23", "s7"),
    ("x24", "s8"), ("x25", "s9"), ("x26", "s10"), ("x27", "s11"), ("x28", "t3"),
    ("x29", "t4"), ("x30", "t5"), ("x31", "t6"), ("f0", "ft0"), ("f1", "ft1"), ("f2", "ft2"),
    ("f3", "ft3"), ("f4", "ft4"), ("f5", "ft5"), ("f6", "ft6"), ("f7", "ft7"), ("f8", "fs0"),
    ("f9", "fs1"), ("f10", "fa0"), ("f11", "fa1"), ("f12", "fa2"), ("f13", "fa3"),
    ("f14", "fa4"), ("f15", "fa5"), ("f16", "fa6"), ("f17", "fa7"), ("f18", "fs2"),
    ("f19", "fs3"), ("f20", "fs4"), ("f21", "fs5"), ("f22", "fs6"), ("f23", "fs7"),
    ("f24", "fs8"), ("f25", "fs9"), ("f26", "fs10"), ("f27", "fs11"), ("f28", "ft8"),
    ("f29", "ft9"), ("f30", "ft10"), ("f31", "ft11")].map fun p => (p.1.toList, p.2.toList)

/-- `gpr_to_abi`. -/
def gprToAbi (gpr : Text) : Text :=
  match switcher.find? (·.1 = gpr) with
  | some p => p.2
  | none => ['n', 'a']

/-- The register column of the RTL trace: the ABI name if there is one. -/
def rtlRegister (rd : DecText) : Text :=
  if h : rd.value < abiNames.length then abiNames[rd.value] else 'x' :: (Nat.repr rd.value).toList

/-- `<register>:<value>`. -/
def gprField (rd : Text) (val : HexText) : Text := rd ++ ':' :: val.text

/-- The registers of both traces are names without a separator. -/
def IsName (s : Text) : Prop := ':' ∉ s ∧ ';' ∉ s

theorem isName_gprToAbi (gpr : Text) : IsName (gprToAbi gpr) := by
  have hall : ∀ p ∈ switcher, ':' ∉ p.2 ∧ ';' ∉ p.2 := by decide
  rw [gprToAbi]
  split
  next p hp => exact hall p (List.mem_of_find?_eq_some hp)
  next => exact ⟨by decide, by decide⟩

theorem isName_rtlRegister (rd : DecText) : IsName (rtlRegister rd) := by
  have hall : ∀ s ∈ abiNames, ':' ∉ s ∧ ';' ∉ s := by decide
  have hdigit : ∀ c ∈ (Nat.repr rd.value).toList, c.isDigit := by
    intro c hc
    rw [Nat.toList_repr] at hc
    exact Nat.isDigit_of_mem_toDigits (by decide) (by decide) hc
  rw [rtlRegister]
  split
  next => exact hall _ (List.getElem_mem _)
  next =>
    constructor
    · intro hmem
      rcases List.mem_cons.mp hmem with h | h
      · cases h
      · exact absurd (hdigit _ h) (by decide)
    · intro hmem
      rcases List.mem_cons.mp hmem with h | h
      · cases h
      · exact absurd (hdigit _ h) (by decide)

/-! ## The CSV files -/

/-- `RiscvInstructionTraceEntry`. -/
structure RiscvInstructionTraceEntry where
  gpr : List Text := []
  csr : List Text := []
  pc : Text := []
  binary : Text := []
  instrStr : Text := []
  mode : Text := []
  deriving DecidableEq

/-- A row; `instr` and `operand` are empty without `full_trace`. -/
structure CsvRow where
  gpr : Text
  csr : Text
  pc : Text
  binary : Text
  instrStr : Text
  mode : Text

/-- `write_trace_entry`. -/
def writeTraceEntry (entry : RiscvInstructionTraceEntry) : CsvRow where
  gpr := [';'].intercalate entry.gpr
  csr := [';'].intercalate entry.csr
  pc := entry.pc
  binary := entry.binary
  instrStr := entry.instrStr
  mode := entry.mode

/-- `read_trace`. -/
def readTrace (rows : List CsvRow) : List RiscvInstructionTraceEntry :=
  rows.map fun row =>
    { gpr := row.gpr.splitOn ';'
      csr := row.csr.splitOn ';'
      pc := row.pc
      binary := row.binary
      instrStr := row.instrStr
      mode := row.mode }

/-- An instruction that updates nothing is read back with one empty update. -/
theorem splitOn_gpr {us : List (Text × HexText)} (hus : ∀ u ∈ us, IsName u.1) :
    ([';'].intercalate (us.map fun u => gprField u.1 u.2)).splitOn ';' =
      if us = [] then [[]] else us.map fun u => gprField u.1 u.2 := by
  by_cases hnil : us = []
  · subst hnil
    rfl
  · rw [if_neg hnil]
    refine List.splitOn_intercalate ';' (fun field hfield => ?_) (by simpa using hnil)
    obtain ⟨u, hu, rfl⟩ := List.mem_map.mp hfield
    have hval : ';' ∉ u.2.text := u.2.not_mem (by decide)
    simpa [gprField, hval] using (hus u hu).2

/-! ## The Spike trace -/

/-- A match of `CORE_RE`, an executed instruction. `instr` is its disassembly as
`read_spike_instr` leaves it, with relative jump targets. -/
structure CoreMatch where
  addr : Text
  bin : Text
  instr : Text

/-- A match of `RD_RE`, a register write. -/
structure RdMatch where
  pri : Text
  reg : Text
  val : HexText
  csr : Option (Text × Text) := none

/-- What `read_spike_trace` finds in a line of the log. -/
structure SpikeLine where
  /-- `end_trampoline_re`, the instruction at `0x1010` -/
  endTrampoline : Bool := false
  core : Option CoreMatch := none
  /-- `trap_illegal_instruction` -/
  illegal : Bool := false
  rd : Option RdMatch := none

/-- `read_spike_instr`. -/
def readSpikeInstr (m : CoreMatch) : RiscvInstructionTraceEntry where
  pc := m.addr
  instrStr := m.instr
  binary := m.bin

/-- A register write of the instruction in hand. -/
def RiscvInstructionTraceEntry.commit (entry : RiscvInstructionTraceEntry) (m : RdMatch) :
    RiscvInstructionTraceEntry :=
  { entry with
    gpr := entry.gpr ++ [gprField (gprToAbi (m.reg.filter (· ≠ ' '))) m.val]
    csr := entry.csr ++ (m.csr.map fun c => c.1 ++ ':' :: c.2).toList
    mode := m.pri }

/-- The states INSTR, without an instruction in hand, and EFFECT of `read_spike_trace`, which
yields the instructions and whether they were illegal. -/
def readSpikeInstrs : Option RiscvInstructionTraceEntry → List SpikeLine →
    List (RiscvInstructionTraceEntry × Bool)
  | none, [] => []
  | some instr, [] => [(instr, false)]
  | none, line :: lines =>
    match line.core with
    | none => readSpikeInstrs none lines
    | some m =>
      if (readSpikeInstr m).instrStr = "ecall".toList then [(readSpikeInstr m, false)]
      else readSpikeInstrs (some (readSpikeInstr m)) lines
  | some instr, line :: lines =>
    match line.core with
    | some m =>
      (instr, false) ::
        if (readSpikeInstr m).instrStr = "ecall".toList then [(readSpikeInstr m, false)]
        else readSpikeInstrs (some (readSpikeInstr m)) lines
    | none =>
      if line.illegal then (instr, true) :: readSpikeInstrs none lines
      else
        match line.rd with
        | some m => readSpikeInstrs (some (instr.commit m)) lines
        | none => readSpikeInstrs (some instr) lines

/-- `read_spike_trace`: the state TRAMPOLINE lasts up to the line of `0x1010`. -/
def readSpikeTrace (lines : List SpikeLine) : List (RiscvInstructionTraceEntry × Bool) :=
  readSpikeInstrs none (lines.dropWhile (!·.endTrampoline)).tail

/-- The entries that go into the CSV file. -/
def keepSpikeEntry (entry : RiscvInstructionTraceEntry) : Bool :=
  entry.gpr ≠ [] ∨ entry.instrStr = "wfi".toList ∨ entry.instrStr = "ecall".toList

/-- `process_spike_sim_log`, without `full_trace`. -/
def processSpikeSimLog (lines : List SpikeLine) : List CsvRow :=
  (((readSpikeTrace lines).map (·.1)).filter keepSpikeEntry).map writeTraceEntry

/-! ## The RTL trace -/

/-- A match of `log_pattern`. -/
structure RtlMatch where
  pc : HexText
  binary : HexText
  write : Option (DecText × HexText)

/-- The loop of `rtl_log_to_csv.py`; `instrStr` is the disassembly by pc, and the flag is
`test_started`. Writes of `x0` are left out. -/
def rtlRows (instrStr : Text → Text) : Bool → List (Option RtlMatch) → List CsvRow
  | _, [] => []
  | started, none :: lines => rtlRows instrStr started lines
  | started, some m :: lines =>
    if started = false ∧ m.pc.value < 0x80000000 then rtlRows instrStr started lines
    else
      match m.write with
      | none => rtlRows instrStr true lines
      | some (rd, val) =>
        if rd.text = ['0'] then rtlRows instrStr true lines
        else
          { pc := m.pc.text
            binary := m.binary.text
            gpr := gprField (rtlRegister rd) val
            instrStr := instrStr m.pc.text
            csr := []
            mode := ['3'] } :: rtlRows instrStr true lines

/-- `rtl_log_to_csv.py`. -/
def rtlLogToCsv (instrStr : Text → Text) (lines : List (Option RtlMatch)) : List CsvRow :=
  rtlRows instrStr false lines

/-! ## What the files hold

Proper updates go through the file unchanged. An instruction without any comes back with one
empty update, since splitting an empty text gives one empty text. -/

namespace RiscvInstructionTraceEntry

/-- The entry holds proper updates. -/
def Updates (entry : RiscvInstructionTraceEntry) (us : List (Text × HexText)) : Prop :=
  (∀ u ∈ us, IsName u.1) ∧ entry.gpr = us.map fun u => gprField u.1 u.2

/-- An entry that was read back: proper updates, or one empty update. -/
def WellFormed (entry : RiscvInstructionTraceEntry) : Prop :=
  ∃ us : List (Text × HexText), (∀ u ∈ us, IsName u.1) ∧
    entry.gpr = if us = [] then [[]] else us.map fun u => gprField u.1 u.2

theorem Updates.commit {entry : RiscvInstructionTraceEntry} {us : List (Text × HexText)}
    (h : entry.Updates us) (m : RdMatch) :
    (entry.commit m).Updates (us ++ [(gprToAbi (m.reg.filter (· ≠ ' ')), m.val)]) := by
  obtain ⟨hnames, hgpr⟩ := h
  constructor
  · intro u hu
    rcases List.mem_append.mp hu with hu | hu
    · exact hnames u hu
    · obtain rfl := List.mem_singleton.mp hu
      exact isName_gprToAbi _
  · change entry.gpr ++ _ = _
    rw [hgpr, List.map_append]
    rfl

end RiscvInstructionTraceEntry

theorem updates_readSpikeInstr (m : CoreMatch) : (readSpikeInstr m).Updates [] :=
  ⟨by simp, rfl⟩

theorem updates_readSpikeInstrs {hand : Option RiscvInstructionTraceEntry}
    (hhand : ∀ instr ∈ hand, ∃ us, instr.Updates us) (lines : List SpikeLine) :
    ∀ p ∈ readSpikeInstrs hand lines, ∃ us, p.1.Updates us := by
  induction lines generalizing hand with
  | nil =>
    cases hand with
    | none => simp [readSpikeInstrs]
    | some instr => simpa [readSpikeInstrs] using hhand
  | cons line lines ih =>
    have hcore : ∀ m, ∀ p ∈ (if (readSpikeInstr m).instrStr = "ecall".toList then
        [(readSpikeInstr m, false)] else readSpikeInstrs (some (readSpikeInstr m)) lines),
        ∃ us, p.1.Updates us := by
      intro m p hp
      split at hp
      · obtain rfl := List.mem_singleton.mp hp
        exact ⟨[], updates_readSpikeInstr m⟩
      · exact ih (fun instr hinstr =>
          ⟨[], Option.mem_some_iff.mp hinstr ▸ updates_readSpikeInstr m⟩) p hp
    cases hand with
    | none =>
      rw [readSpikeInstrs]
      cases line.core with
      | none => exact ih (by simp)
      | some m => exact hcore m
    | some instr =>
      obtain ⟨us, hus⟩ := hhand instr rfl
      rw [readSpikeInstrs]
      cases line.core with
      | some m =>
        intro p hp
        rcases List.mem_cons.mp hp with rfl | hp
        · exact ⟨us, hus⟩
        · exact hcore m p hp
      | none =>
        dsimp only
        split
        · intro p hp
          rcases List.mem_cons.mp hp with rfl | hp
          · exact ⟨us, hus⟩
          · exact ih (by simp) p hp
        · cases line.rd with
          | some m => exact ih fun _ hm => ⟨_, Option.mem_some_iff.mp hm ▸ hus.commit m⟩
          | none => exact ih fun _ hm => ⟨us, Option.mem_some_iff.mp hm ▸ hus⟩

/-- **Every Spike log gives a CSV file of proper updates.** -/
theorem wellFormed_spike (lines : List SpikeLine) :
    ∀ entry ∈ readTrace (processSpikeSimLog lines), entry.WellFormed := by
  intro entry hentry
  obtain ⟨row, hrow, rfl⟩ := List.mem_map.mp hentry
  obtain ⟨entry, hkept, rfl⟩ := List.mem_map.mp hrow
  obtain ⟨p, hp, rfl⟩ := List.mem_map.mp (List.mem_filter.mp hkept).1
  obtain ⟨us, hnames, hgpr⟩ := updates_readSpikeInstrs (by simp) _ p hp
  refine ⟨us, hnames, ?_⟩
  dsimp only [writeTraceEntry]
  rw [hgpr]
  exact splitOn_gpr hnames

theorem gpr_rtlRows (instrStr : Text → Text) (started : Bool) (lines : List (Option RtlMatch)) :
    ∀ row ∈ rtlRows instrStr started lines, ∃ rd val, row.gpr = gprField (rtlRegister rd) val := by
  induction lines generalizing started with
  | nil => simp [rtlRows]
  | cons line lines ih =>
    cases line with
    | none => exact ih started
    | some m =>
      rw [rtlRows]
      split
      · exact ih started
      · split
        next => exact ih true
        next rd val _ =>
          split
          · exact ih true
          · intro row hrow
            rcases List.mem_cons.mp hrow with rfl | hrow
            · exact ⟨rd, val, rfl⟩
            · exact ih true row hrow

/-- **Every RTL log gives a CSV file of proper updates.** -/
theorem wellFormed_rtl (instrStr : Text → Text) (lines : List (Option RtlMatch)) :
    ∀ entry ∈ readTrace (rtlLogToCsv instrStr lines), entry.WellFormed := by
  intro entry hentry
  obtain ⟨row, hrow, rfl⟩ := List.mem_map.mp hentry
  obtain ⟨rd, val, hgpr⟩ := gpr_rtlRows instrStr false lines row hrow
  have hname : ∀ u ∈ [(rtlRegister rd, val)], IsName u.1 := by
    intro u hu
    obtain rfl := List.mem_singleton.mp hu
    exact isName_rtlRegister rd
  refine ⟨[(rtlRegister rd, val)], hname, ?_⟩
  dsimp only
  rw [hgpr]
  simpa using splitOn_gpr hname

end Regression
