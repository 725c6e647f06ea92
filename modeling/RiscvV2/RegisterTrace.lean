import RiscvV2.CommitCheck
import RiscvV2.HartRefinement
import RiscvV2.Stuttering
import RiscvV2.TraceCompare
import Mathlib.Data.List.ReduceOption

/-!
# What a regression run says about the registers

The scripts compare texts. For logs of 32-bit words, with at most one register write in an
instruction, the comparison is one of register histories: the contents of the register file,
one after the other, without repetitions. A seed passes if the histories of the two logs are
equal, or if the RTL log breaks off after a write that changes a register and shows the
beginning of the history of Spike (`processSeed_iff_history`). On the pipeline there is no
false alarm: as long as the Spike log follows the hart, the register writes of the pipeline up
to the same instruction pass (`processSeed_pipeline`).
-/

namespace Regression

open RiscvV2 (Word Regs RegWrite SpikeEntry LogLine Retirement ecallInstr)
open Stuttering

/-! ## Words as texts

Words are printed as eight digits and register numbers in decimal, and both ways back are
injective. -/

/-- The lowest `n` digits of `v` in base 16. -/
def hexDigitsOf : ℕ → ℕ → Text
  | 0, _ => []
  | n + 1, v => Nat.digitChar (v / 16 ^ n % 16) :: hexDigitsOf n v

theorem hexDigit?_digitChar {d : ℕ} (h : d < 16) : hexDigit? (Nat.digitChar d) = some d := by
  have hall : ∀ d : Fin 16, hexDigit? (Nat.digitChar d) = some d.val := by decide
  exact hall ⟨d, h⟩

theorem hexDigit?_of_mem {n v : ℕ} {c : Char} (h : c ∈ hexDigitsOf n v) :
    (hexDigit? c).isSome := by
  induction n with
  | zero => cases h
  | succ n ih =>
    rcases List.mem_cons.mp h with rfl | h
    · rw [hexDigit?_digitChar (Nat.mod_lt _ (by decide))]
      rfl
    · exact ih h

theorem foldl_hexDigitsOf (n v a : ℕ) :
    (hexDigitsOf n v).foldl (fun n c => 16 * n + (hexDigit? c).getD 0) a =
      a * 16 ^ n + v % 16 ^ n := by
  induction n generalizing a with
  | zero => simp [hexDigitsOf, Nat.mod_one]
  | succ n ih =>
    rw [hexDigitsOf, List.foldl_cons, ih, hexDigit?_digitChar (Nat.mod_lt _ (by decide)),
      Option.getD_some, Nat.mod_pow_succ]
    ring

/-- A word as `%08x` prints it. -/
def hexWord (w : Word) : HexText where
  text := hexDigitsOf 8 w.toNat
  ne_nil := List.cons_ne_nil _ _
  digits _ hc := hexDigit?_of_mem hc

theorem value_hexWord (w : Word) : (hexWord w).value = w.toNat := by
  have hw : w.toNat < 16 ^ 8 := w.isLt
  rw [HexText.value, hexWord, foldl_hexDigitsOf, Nat.zero_mul, Nat.zero_add, Nat.mod_eq_of_lt hw]

theorem hexWord_text_inj {v w : Word} : (hexWord v).text = (hexWord w).text ↔ v = w := by
  refine ⟨fun h => BitVec.eq_of_toNat_eq ?_, fun h => h ▸ rfl⟩
  rw [← value_hexWord v, ← value_hexWord w, HexText.value, HexText.value, h]

/-- A register number as `%d` prints it. -/
def decReg (rd : BitVec 5) : DecText where
  text := Nat.toDigits 10 rd.toNat
  ne_nil := Nat.toDigits_ne_nil
  digits _ hc := Nat.isDigit_of_mem_toDigits (by decide) (by decide) hc

theorem value_decReg (rd : BitVec 5) : (decReg rd).value = rd.toNat := by
  revert rd
  decide

/-- The ABI name of a register. -/
def abiName (rd : BitVec 5) : Text := abiNames.get ⟨rd.toNat, rd.isLt⟩

theorem abiName_inj {a b : BitVec 5} : abiName a = abiName b ↔ a = b := by
  have hnodup : abiNames.Nodup := by decide
  refine ⟨fun h => BitVec.eq_of_toNat_eq ?_, fun h => h ▸ rfl⟩
  exact (hnodup.getElem_inj_iff).mp h

/-- **Both scripts use the same names.** -/
theorem gprToAbi_eq (rd : BitVec 5) : gprToAbi ('x' :: (decReg rd).text) = abiName rd := by
  revert rd
  decide

theorem filter_decReg (rd : BitVec 5) :
    ('x' :: (decReg rd).text).filter (· ≠ ' ') = 'x' :: (decReg rd).text := by
  revert rd
  decide

theorem rtlRegister_eq (rd : BitVec 5) : rtlRegister (decReg rd) = abiName rd := by
  have hlt : (decReg rd).value < abiNames.length := by
    rw [value_decReg]
    exact rd.isLt
  rw [rtlRegister, dif_pos hlt, abiName]
  congr 1
  exact value_decReg rd

/-! ## Registers and dictionaries

A dictionary holds a register file if it has the printed value of every register, and zero may
be missing. Then the script sees a change exactly where the registers change. -/

/-- A write leaves the registers as they are if the value is there already. -/
theorem apply_eq_self_iff (regs : Regs) (w : RegWrite) :
    w.apply regs = regs ↔ regs w.rd = w.data := by
  constructor
  · intro h
    rw [← congrFun h w.rd, RegWrite.apply, if_pos rfl]
  · intro h
    funext r
    rw [RegWrite.apply]
    split
    next hr => rw [hr, h]
    next => rfl

instance (regs : Regs) (w : RegWrite) : Decidable (RegWrite.apply regs w = regs) :=
  decidable_of_iff _ (apply_eq_self_iff regs w).symm

/-- The register and the value of a write that changes something can be seen. -/
theorem determined_apply : Determined RegWrite.apply := by
  rintro regs ⟨rd, data⟩ ⟨rd', data'⟩ hne heq
  rw [Ne, apply_eq_self_iff] at hne
  have hrd := congrFun heq rd
  simp only [RegWrite.apply, if_true] at hrd
  split at hrd
  next h =>
    subst h hrd
    rfl
  next => exact absurd hrd.symm hne

/-- The dictionary of the script holds the registers; a register without an entry is zero. -/
def Holds (gpr : GprVal) (regs : Regs) : Prop :=
  ∀ rd, match gpr (abiName rd) with
    | some val => val = (hexWord (regs rd)).text
    | none => regs rd = 0#32

theorem holds_empty : Holds .empty Regs.zero := fun _ => rfl

theorem isName_abiName (rd : BitVec 5) : IsName (abiName rd) := by
  rw [← gprToAbi_eq]
  exact isName_gprToAbi _

variable {gpr : GprVal} {regs : Regs} {entry : RiscvInstructionTraceEntry}

/-- The register column of a write. -/
def writeField (w : RegWrite) : List Text := [gprField (abiName w.rd) (hexWord w.data)]

theorem writeField_inj : Function.Injective writeField := by
  rintro ⟨rd, data⟩ ⟨rd', data'⟩ h
  have hsplit := congrArg (List.splitOn ':') (List.cons.inj h).1
  rw [splitOn_gprField (isName_abiName _), splitOn_gprField (isName_abiName _)] at hsplit
  obtain ⟨hrd, htail⟩ := List.cons.inj hsplit
  obtain rfl := abiName_inj.mp hrd
  obtain rfl := hexWord_text_inj.mp (List.cons.inj htail).1
  rfl

/-- A written register goes through the CSV file unchanged. -/
theorem splitOn_writeField (w : RegWrite) :
    (gprField (abiName w.rd) (hexWord w.data)).splitOn ';' = writeField w := by
  refine List.splitOn_eq_singleton fun hmem => ?_
  rcases List.mem_append.mp hmem with hmem | hmem
  · exact (isName_abiName w.rd).2 hmem
  · rcases List.mem_cons.mp hmem with hcolon | hmem
    · cases hcolon
    · exact (hexWord w.data).not_mem (by decide) hmem

theorem Holds.set (h : Holds gpr regs) (w : RegWrite) :
    Holds (gpr.set (abiName w.rd) (hexWord w.data).text) (w.apply regs) := by
  intro rd
  by_cases hrd : rd = w.rd
  · simp [GprVal.set, RegWrite.apply, hrd]
  · have hname : abiName rd ≠ abiName w.rd := fun heq => hrd (abiName_inj.mp heq)
    simpa [GprVal.set, RegWrite.apply, hrd, hname] using h rd

/-- **The script sees exactly the writes that change a register.** -/
theorem Holds.step_write (h : Holds gpr regs) (w : RegWrite) (hgpr : entry.gpr = writeField w) :
    entry.step gpr =
      (decide (w.apply regs ≠ regs), gpr.set (abiName w.rd) (hexWord w.data).text) := by
  have hiff : w.apply regs ≠ regs ↔ regs w.rd ≠ w.data := not_congr (apply_eq_self_iff regs w)
  have hchange : (match gpr (abiName w.rd) with
      | some v => decide ((hexWord w.data).text ≠ v)
      | none => decide ((hexWord w.data).value ≠ 0)) = decide (w.apply regs ≠ regs) := by
    have hregs := h w.rd
    split at hregs
    next v hv =>
      rw [hregs]
      exact decide_eq_decide.mpr (by rw [hiff, Ne, hexWord_text_inj, eq_comm])
    next hv =>
      refine decide_eq_decide.mpr ?_
      rw [hiff, value_hexWord, hregs]
      exact not_congr ⟨fun h0 => (BitVec.eq_of_toNat_eq h0).symm, fun h0 => h0 ▸ rfl⟩
  have hread : changesGpr gpr (abiName w.rd) (hexWord w.data).text =
      .ok (decide (w.apply regs ≠ regs)) := (changesGpr_ok _ _ _).trans (congrArg _ hchange)
  have hcheck : checkUpdateGpr entry.gpr gpr =
      .ok (decide (w.apply regs ≠ regs), gpr.set (abiName w.rd) (hexWord w.data).text) := by
    rw [hgpr, checkUpdateGpr, writeField, checkUpdates, if_neg (gprField_ne_nil _ _),
      splitOn_gprField (isName_abiName _)]
    dsimp only
    rw [hread]
    rfl
  rw [RiscvInstructionTraceEntry.step, hcheck]

/-- The registers column of an instruction with at most one write. -/
def ShowsWrite (entry : RiscvInstructionTraceEntry) (w : Option RegWrite) : Prop :=
  entry.gpr = match w with
    | some w => writeField w
    | none => [[]]

theorem step_no_write (h : entry.gpr = [[]]) (gpr : GprVal) : entry.step gpr = (false, gpr) := by
  rw [RiscvInstructionTraceEntry.step, h]
  rfl

/-- **What the script compares** are the writes that change a register. -/
theorem changing_eq {traces : Trace} {ws : List (Option RegWrite)}
    (h : List.Forall₂ ShowsWrite traces ws) (hgpr : Holds gpr regs) :
    changing gpr traces = (changes RegWrite.apply regs ws.reduceOption).map writeField := by
  induction h generalizing gpr regs with
  | nil => rfl
  | @cons trace w traces ws hw _ ih =>
    cases w with
    | none =>
      have hstep := step_no_write hw gpr
      rw [changing_cons_of_no_change (by rw [hstep]), hstep, List.reduceOption_cons_of_none]
      exact ih hgpr
    | some w =>
      have hstep := hgpr.step_write w hw
      rw [List.reduceOption_cons_of_some]
      by_cases heq : w.apply regs = regs
      · rw [changing_cons_of_no_change (by rw [hstep]; simpa using heq), hstep,
          changes_cons_of_eq heq]
        exact ih (heq ▸ hgpr.set w)
      · rw [changing_cons_of_change (by rw [hstep]; simpa using heq), hstep,
          changes_cons_of_ne heq, List.map_cons, hw]
        exact congrArg (writeField w :: ·) (ih (hgpr.set w))

/-- The last write changes a register. -/
def LastWriteChanges (regs : Regs) (ws : List RegWrite) : Prop :=
  ∃ vs w, ws = vs ++ [w] ∧ w.apply (vs.foldl RegWrite.apply regs) ≠ vs.foldl RegWrite.apply regs

theorem lastWriteChanges_cons {w : RegWrite} {ws : List RegWrite} (hws : ws ≠ []) :
    LastWriteChanges regs (w :: ws) ↔ LastWriteChanges (w.apply regs) ws := by
  constructor
  · rintro ⟨vs, u, heq, hu⟩
    cases vs with
    | nil =>
      obtain ⟨-, rfl⟩ := List.cons.inj heq
      exact absurd rfl hws
    | cons v vs =>
      obtain ⟨rfl, rfl⟩ := List.cons.inj heq
      exact ⟨vs, u, rfl, hu⟩
  · rintro ⟨vs, u, rfl, hu⟩
    exact ⟨w :: vs, u, rfl, hu⟩

theorem endsInChange_iff {traces : Trace} {ws : List RegWrite}
    (h : List.Forall₂ ShowsWrite traces (ws.map some)) (hgpr : Holds gpr regs) :
    endsInChange gpr traces = true ↔ LastWriteChanges regs ws := by
  induction ws generalizing gpr regs traces with
  | nil =>
    cases h
    simp [endsInChange, LastWriteChanges]
  | cons w ws ih =>
    rw [List.map_cons] at h
    obtain ⟨trace, traces', hw, htail, rfl⟩ := List.forall₂_cons_right_iff.mp h
    have hstep := hgpr.step_write w hw
    rw [endsInChange, hstep]
    cases ws with
    | nil =>
      cases htail
      simp [LastWriteChanges, List.singleton_eq_append_iff]
    | cons v ws =>
      have hne : traces' ≠ [] := by
        rintro rfl
        cases htail
      rw [if_neg hne, ih htail (hgpr.set w), lastWriteChanges_cons (List.cons_ne_nil _ _)]

/-! ## The Spike log -/

/-- What `read_spike_trace` finds in a line about words; `disasm` is Spike's disassembler. -/
def spikeLine (disasm : Word → Text) : LogLine → SpikeLine
  | .exec pc instr =>
    { endTrampoline := pc = 0x1010#32
      core := some ⟨(hexWord pc).text, (hexWord instr).text, disasm instr⟩ }
  | .commit _ _ (some (rd, data)) =>
    { rd := some { pri := ['3'], reg := 'x' :: (decReg rd).text, val := hexWord data } }
  | .commit _ _ none => {}
  | .other => {}

/-- The write of an instruction in the log. -/
def entryWrite (e : SpikeEntry) : Option RegWrite := e.commit.join.map fun w => ⟨w.1, w.2⟩

/-- The register writes in the log before its ECALL. -/
def spikeWrites (es : List SpikeEntry) : List RegWrite :=
  ((RiscvV2.spikeBeforeEcall es).map entryWrite).reduceOption

/-- Updates as they are read from the log, before they go through the CSV file. -/
def HasWrite (entry : RiscvInstructionTraceEntry) (w : Option RegWrite) : Prop :=
  entry.gpr = (w.map fun w => gprField (abiName w.rd) (hexWord w.data)).toList

/-- The CSV file shows all writes; of the other instructions it shows some. -/
theorem showsWrite_csv {entries : Trace} {ws : List (Option RegWrite)}
    (h : List.Forall₂ HasWrite entries ws) :
    ∃ vs : List (Option RegWrite), vs.reduceOption = ws.reduceOption ∧ List.Forall₂ ShowsWrite
      (readTrace ((entries.filter keepSpikeEntry).map writeTraceEntry)) vs := by
  induction h with
  | nil => exact ⟨[], rfl, .nil⟩
  | @cons entry w entries ws hw _ ih =>
    obtain ⟨vs, hvs, hshows⟩ := ih
    cases w with
    | none =>
      rw [List.reduceOption_cons_of_none]
      by_cases hkeep : keepSpikeEntry entry = true
      · rw [List.filter_cons_of_pos hkeep]
        refine ⟨none :: vs, hvs, .cons ?_ hshows⟩
        change ([';'].intercalate entry.gpr).splitOn ';' = [[]]
        rw [hw]
        rfl
      · rw [List.filter_cons_of_neg hkeep]
        exact ⟨vs, hvs, hshows⟩
    | some w =>
      have hkeep : keepSpikeEntry entry = true := by
        rw [keepSpikeEntry, decide_eq_true_eq, hw]
        exact .inl (List.cons_ne_nil _ _)
      rw [List.filter_cons_of_pos hkeep]
      refine ⟨some w :: vs, by simp [hvs], .cons ?_ hshows⟩
      have hjoin : [';'].intercalate entry.gpr = gprField (abiName w.rd) (hexWord w.data) := by
        rw [hw]
        simp
      change ([';'].intercalate entry.gpr).splitOn ';' = writeField w
      rw [hjoin, splitOn_writeField]

section spikeLog

variable {disasm : Word → Text}

theorem readSpikeInstrs_hand (instr : RiscvInstructionTraceEntry) (es : List SpikeEntry) :
    readSpikeInstrs (some instr) ((RiscvV2.spikeLog es).map (spikeLine disasm)) =
      (instr, false) :: readSpikeInstrs none ((RiscvV2.spikeLog es).map (spikeLine disasm)) := by
  cases es with
  | nil => rfl
  | cons e es => rfl

/-- The entry of an instruction that is not the ECALL. -/
theorem readSpikeInstrs_entry {e : SpikeEntry} (he : disasm e.instr ≠ "ecall".toList)
    (es : List SpikeEntry) :
    ∃ entry, HasWrite entry (entryWrite e) ∧
      readSpikeInstrs none ((RiscvV2.spikeLog (e :: es)).map (spikeLine disasm)) =
        (entry, false) ::
          readSpikeInstrs none ((RiscvV2.spikeLog es).map (spikeLine disasm)) := by
  obtain ⟨pc, instr, commit⟩ := e
  have hlines : (RiscvV2.spikeLog (⟨pc, instr, commit⟩ :: es)).map (spikeLine disasm) =
      spikeLine disasm (.exec pc instr) ::
        ((commit.map (LogLine.commit pc instr)).toList.map (spikeLine disasm) ++
          (RiscvV2.spikeLog es).map (spikeLine disasm)) := by
    rw [RiscvV2.spikeLog, List.flatMap_cons, List.map_append]
    rfl
  have hexec : ∀ lines, readSpikeInstrs none (spikeLine disasm (.exec pc instr) :: lines) =
      readSpikeInstrs (some (readSpikeInstr
        ⟨(hexWord pc).text, (hexWord instr).text, disasm instr⟩)) lines := by
    intro lines
    rw [readSpikeInstrs]
    exact if_neg he
  rw [hlines, hexec]
  rcases commit with _ | _ | ⟨rd, data⟩
  · exact ⟨readSpikeInstr _, rfl, readSpikeInstrs_hand _ es⟩
  · exact ⟨readSpikeInstr _, rfl, readSpikeInstrs_hand _ es⟩
  · refine ⟨(readSpikeInstr _).commit _, ?_, readSpikeInstrs_hand _ es⟩
    change [] ++ [gprField (gprToAbi (('x' :: (decReg rd).text).filter (· ≠ ' '))) _] = _
    rw [filter_decReg, gprToAbi_eq]
    rfl

variable (hdisasm : ∀ w, disasm w = "ecall".toList ↔ w = ecallInstr)

include hdisasm

theorem hasWrite_spike (es : List SpikeEntry) :
    ∃ ws : List (Option RegWrite), ws.reduceOption = spikeWrites es ∧
      List.Forall₂ HasWrite
        ((readSpikeInstrs none ((RiscvV2.spikeLog es).map (spikeLine disasm))).map (·.1)) ws := by
  induction es with
  | nil => exact ⟨[], rfl, .nil⟩
  | cons e es ih =>
    by_cases he : e.instr = ecallInstr
    · -- the script stops at the ECALL
      refine ⟨[none], ?_, ?_⟩
      · rw [spikeWrites, RiscvV2.spikeBeforeEcall, List.takeWhile_cons_of_neg (by simp [he])]
        rfl
      · have hread : readSpikeInstrs none
            ((RiscvV2.spikeLog (e :: es)).map (spikeLine disasm)) =
            [(readSpikeInstr ⟨(hexWord e.pc).text, (hexWord e.instr).text, disasm e.instr⟩,
              false)] := if_pos ((hdisasm _).mpr he)
        rw [hread]
        exact .cons rfl .nil
    · obtain ⟨ws, hws, hshows⟩ := ih
      obtain ⟨entry, hentry, hread⟩ :=
        readSpikeInstrs_entry (fun h => he ((hdisasm _).mp h)) es
      refine ⟨entryWrite e :: ws, ?_, ?_⟩
      · rw [spikeWrites, RiscvV2.spikeBeforeEcall, List.takeWhile_cons_of_pos (by simp [he]),
          List.map_cons]
        cases entryWrite e with
        | none => exact hws
        | some w => exact (List.reduceOption_cons_of_some _ _).trans (congrArg (w :: ·) hws)
      · rw [hread]
        exact .cons hentry hshows

omit hdisasm in
/-- The trampoline ends with the line of `0x1010`. -/
theorem readSpikeTrace_boot {boot : List SpikeEntry} (hboot : ∀ e ∈ boot, e.pc ≠ 0x1010#32)
    {last : SpikeEntry} (hlast : last.pc = 0x1010#32) (es : List SpikeEntry) :
    readSpikeTrace ((RiscvV2.spikeLog (boot ++ last :: es)).map (spikeLine disasm)) =
      readSpikeInstrs none ((RiscvV2.spikeLog es).map (spikeLine disasm)) := by
  have hcommit : ∀ line ∈ (last.commit.map (LogLine.commit last.pc last.instr)).toList,
      (spikeLine disasm line).core = none := by
    intro line hline
    obtain ⟨pc, instr, _ | _ | w⟩ := last
    · simp at hline
    · obtain rfl : line = _ := by simpa using hline
      rfl
    · obtain rfl : line = _ := by simpa using hline
      rfl
  have hskip : ∀ lines : List SpikeLine, (∀ line ∈ lines, line.core = none) →
      ∀ rest, readSpikeInstrs none (lines ++ rest) = readSpikeInstrs none rest := by
    intro lines hlines rest
    induction lines with
    | nil => rfl
    | cons line lines ih =>
      rw [List.cons_append, readSpikeInstrs, hlines line (by simp)]
      exact ih fun l hl => hlines l (by simp [hl])
  induction boot with
  | nil =>
    have hdrop : (((RiscvV2.spikeLog (last :: es)).map (spikeLine disasm)).dropWhile
        (!·.endTrampoline)).tail =
        (last.commit.map (LogLine.commit last.pc last.instr)).toList.map (spikeLine disasm) ++
          (RiscvV2.spikeLog es).map (spikeLine disasm) := by
      rw [RiscvV2.spikeLog, List.flatMap_cons, List.map_append, SpikeEntry.lines, List.map_cons,
        List.cons_append, List.dropWhile_cons_of_neg (by simp [spikeLine, hlast])]
      rfl
    rw [List.nil_append, readSpikeTrace, hdrop]
    exact hskip _ (by simpa using hcommit) _
  | cons e boot ih =>
    have hlines : ∀ line ∈ e.lines.map (spikeLine disasm), (!line.endTrampoline) = true := by
      obtain ⟨pc, instr, _ | _ | w⟩ := e <;>
        simp [SpikeEntry.lines, spikeLine, show pc ≠ 0x1010#32 from hboot _ List.mem_cons_self]
    rw [← ih fun e he => hboot e (by simp [he]), readSpikeTrace, readSpikeTrace, List.cons_append,
      RiscvV2.spikeLog, List.flatMap_cons, List.map_append,
      List.dropWhile_append_of_pos hlines]
    rfl

end spikeLog

/-! ## The RTL log -/

/-- The line of a retirement as `log_pattern` matches it. -/
def rtlMatch (r : Retirement) : RtlMatch where
  pc := hexWord r.pc
  binary := hexWord r.instr
  write := r.write.map fun w => (decReg w.rd, hexWord w.data)

/-- The register writes in the log from the first pc in the program on. -/
def rtlWrites (rs : List Retirement) : List RegWrite :=
  ((rs.dropWhile (·.pc.toNat < 0x80000000)).filterMap (·.write)).filter (·.rd ≠ 0#5)

theorem decReg_eq_zero_iff (rd : BitVec 5) : (decReg rd).text = ['0'] ↔ rd = 0#5 := by
  revert rd
  decide

theorem showsWrite_rtl_started (instrStr : Text → Text) {lines : List (Option RtlMatch)}
    {rs : List Retirement} (hlines : lines.reduceOption = rs.map rtlMatch) :
    List.Forall₂ ShowsWrite (readTrace (rtlRows instrStr true lines))
      (((rs.filterMap (·.write)).filter (·.rd ≠ 0#5)).map some) := by
  induction lines generalizing rs with
  | nil =>
    obtain rfl := List.map_eq_nil_iff.mp hlines.symm
    exact .nil
  | cons line lines ih =>
    cases line with
    | none => exact ih hlines
    | some m =>
      rw [List.reduceOption_cons_of_some] at hlines
      obtain ⟨r, rs', rfl, rfl, hrest⟩ := List.map_eq_cons_iff.mp hlines.symm
      have hnext := ih hrest.symm
      rw [rtlRows, if_neg (by simp)]
      obtain ⟨pc, instr, _ | ⟨rd, data⟩⟩ := r
      · exact hnext
      · change List.Forall₂ ShowsWrite (readTrace (if (decReg rd).text = ['0'] then _ else _)) _
        rw [List.filterMap_cons_some (by rfl)]
        by_cases hrd : rd = 0#5
        · rw [if_pos ((decReg_eq_zero_iff rd).mpr hrd), List.filter_cons_of_neg (by simp [hrd])]
          exact hnext
        · rw [if_neg (fun h => hrd ((decReg_eq_zero_iff rd).mp h)),
            List.filter_cons_of_pos (by simp [hrd]), List.map_cons]
          refine .cons ?_ hnext
          change (gprField (rtlRegister (decReg rd)) (hexWord data)).splitOn ';' = _
          rw [rtlRegister_eq]
          exact splitOn_writeField ⟨rd, data⟩

theorem showsWrite_rtl (instrStr : Text → Text) {lines : List (Option RtlMatch)}
    {rs : List Retirement} (hlines : lines.reduceOption = rs.map rtlMatch) :
    List.Forall₂ ShowsWrite (readTrace (rtlLogToCsv instrStr lines))
      ((rtlWrites rs).map some) := by
  induction lines generalizing rs with
  | nil =>
    obtain rfl := List.map_eq_nil_iff.mp hlines.symm
    exact .nil
  | cons line lines ih =>
    cases line with
    | none => exact ih hlines
    | some m =>
      have hall := showsWrite_rtl_started instrStr hlines
      rw [List.reduceOption_cons_of_some] at hlines
      obtain ⟨r, rs', rfl, rfl, hrest⟩ := List.map_eq_cons_iff.mp hlines.symm
      by_cases hpc : r.pc.toNat < 0x80000000
      · have hvalue : (rtlMatch r).pc.value < 0x80000000 := by
          rwa [rtlMatch, value_hexWord]
        rw [rtlLogToCsv, rtlRows, if_pos ⟨rfl, hvalue⟩, rtlWrites,
          List.dropWhile_cons_of_pos (by simpa using hpc)]
        exact ih hrest.symm
      · have hvalue : ¬ (rtlMatch r).pc.value < 0x80000000 := by
          rwa [rtlMatch, value_hexWord]
        rw [rtlRows, if_neg (by simp)] at hall
        rw [rtlLogToCsv, rtlRows, if_neg (fun h => hvalue h.2), rtlWrites,
          List.dropWhile_cons_of_neg (by simpa using hpc)]
        exact hall

/-! ## Register histories

A sequence of writes, each of which changes something, is determined by the register files it
goes through. So the comparison of updates is a comparison of histories. -/

/-- The contents of the register file from reset on, without repetitions. -/
noncomputable def registerHistory (ws : List RegWrite) : List Regs :=
  @history Regs RegWrite RegWrite.apply (Classical.decEq Regs) Regs.zero ws

theorem registerHistory_prefix_iff {us vs : List RegWrite} :
    registerHistory us <+: registerHistory vs ↔
      changes RegWrite.apply Regs.zero us <+: changes RegWrite.apply Regs.zero vs :=
  @history_prefix_iff _ _ _ _ us vs (Classical.decEq Regs) _ determined_apply

theorem registerHistory_eq_iff {us vs : List RegWrite} :
    registerHistory us = registerHistory vs ↔
      changes RegWrite.apply Regs.zero us = changes RegWrite.apply Regs.zero vs :=
  @history_eq_iff _ _ _ _ us vs (Classical.decEq Regs) _ determined_apply

section logs

variable {disasm : Word → Text} (hdisasm : ∀ w, disasm w = "ecall".toList ↔ w = ecallInstr)
  (instrStr : Text → Text) {boot es : List SpikeEntry} {last : SpikeEntry}
  {rtlLog : List (Option RtlMatch)} {rs : List Retirement}

include hdisasm

/-- **A seed passes exactly if the register histories of both logs agree**, or if the RTL log
breaks off behind a change of a register and shows the beginning of the history of Spike. The
Spike log begins with boot code that ends at `0x1010`, and its disassembler writes `ecall` for
that word only. -/
theorem processSeed_iff_history (hboot : ∀ e ∈ boot, e.pc ≠ 0x1010#32)
    (hlast : last.pc = 0x1010#32) (hrtl : rtlLog.reduceOption = rs.map rtlMatch) :
    processSeed instrStr ((RiscvV2.spikeLog (boot ++ last :: es)).map (spikeLine disasm))
        rtlLog = true ↔
      registerHistory (spikeWrites es) = registerHistory (rtlWrites rs) ∨
        LastWriteChanges Regs.zero (rtlWrites rs) ∧
          registerHistory (rtlWrites rs) <+: registerHistory (spikeWrites es) := by
  obtain ⟨ws, hws, hlog⟩ := hasWrite_spike hdisasm es
  obtain ⟨vs, hvs, hspike⟩ := showsWrite_csv hlog
  have hshows := showsWrite_rtl instrStr hrtl
  have hall : ((rtlWrites rs).map some).reduceOption = rtlWrites rs := by
    simp [List.reduceOption]
  rw [processSeed, Bool.not_eq_true', compareTraceCsv_passes_iff (wellFormed_spike _)
    (wellFormed_rtl _ _), endsInChange_iff hshows holds_empty, changing_eq hshows holds_empty,
    processSpikeSimLog, readSpikeTrace_boot hboot hlast, changing_eq hspike holds_empty, hvs, hws,
    hall, registerHistory_eq_iff, registerHistory_prefix_iff,
    writeField_inj.list_map.eq_iff, List.prefix_map_iff_of_injective writeField_inj]

end logs

/-- Spike's name for a word, as far as the scripts look at it. -/
def addiDisasm (w : Word) : Text := (if w = ecallInstr then "ecall" else "li ra, 7").toList

theorem addiDisasm_eq_ecall_iff (w : Word) : addiDisasm w = "ecall".toList ↔ w = ecallInstr := by
  rw [addiDisasm]
  split
  next h => exact ⟨fun _ => h, fun _ => rfl⟩
  next h => exact ⟨fun heq => absurd heq (by decide), fun heq => absurd heq h⟩

/-- The retirement of `addi x1, x0, 7`. -/
def addiRetired : Retirement := ⟨0x80000000#32, 0x00700093#32, some ⟨1#5, 7#32⟩⟩

/-- The end of Spike's boot code. -/
def bootJump : SpikeEntry := ⟨0x1010#32, 0x00028067#32, none⟩

/-- Spike loads 7 and then 9, and the RTL simulation stops behind the 7. -/
theorem processSeed_iff_history_truncated :
    processSeed (fun _ => [])
      ((RiscvV2.spikeLog [bootJump,
        ⟨0x80000000#32, 0x00700093#32, some (some (1#5, 7#32))⟩,
        ⟨0x80000004#32, 0x00900093#32, some (some (1#5, 9#32))⟩,
        ⟨0x80000008#32, ecallInstr, none⟩]).map (spikeLine addiDisasm))
      [some (rtlMatch addiRetired)] = true := by
  refine (@processSeed_iff_history addiDisasm addiDisasm_eq_ecall_iff (fun _ => []) [] _ _ _
    [addiRetired] (by simp) rfl rfl).mpr (.inr ⟨?_, ?_⟩)
  · exact ⟨[], ⟨1#5, 7#32⟩, rfl, fun h => absurd (congrFun h 1#5) (by decide)⟩
  · rw [registerHistory_prefix_iff]
    decide

/-! ## The pipeline -/

section pipeline

open RiscvV2

variable {c : Config} {imem : Word → Word} {mem : DataMem} {prog : Rv32.Program}

/-- The log shows the registers of the hart: those of its first `i` instructions are left
after `i` of them, for all instructions before the ECALL. -/
def FollowsHart (c : Config) (mem : DataMem) (prog : Rv32.Program) (es : List SpikeEntry) :
    Prop :=
  ∀ i ≤ (spikeBeforeEcall es).length, ∃ h,
    (hartReset c mem).run (corePlatform c) prog i = some h ∧
      (spikeWrites ((spikeBeforeEcall es).take i)).foldl RegWrite.apply Regs.zero = h.regs.get

theorem seqRun_writes (c : Config) (imem : Word → Word) (mem : DataMem) (k : ℕ) :
    (seqRun c imem mem k).regWrites =
        ((List.range k).map fun i =>
          ((seqRun c imem mem i).effect c imem).regWrite.toList).flatten ∧
      (seqRun c imem mem k).regs =
        (seqRun c imem mem k).regWrites.foldl RegWrite.apply Regs.zero := by
  induction k with
  | zero => exact ⟨rfl, rfl⟩
  | succ k ih =>
    obtain ⟨hwrites, hregs⟩ := ih
    have hstep : seqRun c imem mem (k + 1) = seqStep c imem (seqRun c imem mem k) :=
      Function.iterate_succ_apply' _ _ _
    constructor
    · rw [hstep, List.range_succ, List.map_append, List.flatten_append, ← hwrites]
      simp [seqStep, Seq.commit]
    · rw [hstep, seqStep]
      change (((seqRun c imem mem k).effect c imem).regWrite.toList).foldl RegWrite.apply
          (seqRun c imem mem k).regs = List.foldl RegWrite.apply _ (_ ++ _)
      rw [List.foldl_append, ← hregs]

theorem reduceOption_eq_flatten {α : Type} (l : List (Option α)) :
    l.reduceOption = (l.map Option.toList).flatten := by
  induction l with
  | nil => rfl
  | cons a l ih =>
    rw [List.map_cons, List.flatten_cons, ← ih]
    cases a <;> rfl

/-- No entry in front of an ECALL is the ECALL. -/
theorem spikeWrites_take (es : List SpikeEntry) (i : ℕ) :
    spikeWrites ((spikeBeforeEcall es).take i) =
      (((spikeBeforeEcall es).map fun e => (entryWrite e).toList).take i).flatten := by
  have hbefore : spikeBeforeEcall ((spikeBeforeEcall es).take i) =
      (spikeBeforeEcall es).take i := by
    rw [spikeBeforeEcall, List.takeWhile_eq_self_iff]
    intro e he
    exact List.mem_takeWhile_imp (p := fun e : SpikeEntry => e.instr != ecallInstr)
      (List.mem_of_mem_take he)
  rw [spikeWrites, hbefore, ← List.map_take, reduceOption_eq_flatten, List.map_map]
  rfl

/-- **A log that follows the hart and the sequential machine make the same changes.** -/
theorem changes_of_followsHart (hprog : HoldsProgram imem prog) {es : List SpikeEntry}
    (hes : FollowsHart c mem prog es) :
    changes RegWrite.apply Regs.zero (spikeWrites es) =
      changes RegWrite.apply Regs.zero
        (seqRun c imem mem (spikeBeforeEcall es).length).regWrites := by
  have hspike : spikeWrites es =
      ((spikeBeforeEcall es).map fun e => (entryWrite e).toList).flatten := by
    have htake := spikeWrites_take es (spikeBeforeEcall es).length
    rw [List.take_length, List.take_of_length_le (by simp)] at htake
    rw [← htake, spikeWrites, spikeWrites, spikeBeforeEcall, spikeBeforeEcall,
      List.takeWhile_idem]
  rw [hspike, (seqRun_writes c imem mem _).1]
  have hstates : ∀ i ≤ (spikeBeforeEcall es).length,
      (((spikeBeforeEcall es).map fun e => (entryWrite e).toList).take i).flatten.foldl
          RegWrite.apply Regs.zero =
        (((List.range (spikeBeforeEcall es).length).map fun i =>
          ((seqRun c imem mem i).effect c imem).regWrite.toList).take i).flatten.foldl
            RegWrite.apply Regs.zero := by
    intro i hi
    obtain ⟨h, hrun, hregs⟩ := hes i hi
    obtain ⟨hwrites, hseq⟩ := seqRun_writes c imem mem i
    rw [← spikeWrites_take, hregs, ← (hart_seqRun hprog hrun).2.1, hseq, hwrites, ← List.map_take,
      List.take_range, Nat.min_eq_left hi]
  refine determined_apply.changes_flatten_eq (by simp) ?_ ?_ fun i => ?_
  · intro ws hws
    obtain ⟨e, -, rfl⟩ := List.mem_map.mp hws
    exact Option.length_toList_le
  · intro ws hws
    obtain ⟨i, -, rfl⟩ := List.mem_map.mp hws
    exact Option.length_toList_le
  · rcases le_total i (spikeBeforeEcall es).length with hi | hi
    · exact hstates i hi
    · have hlast := hstates _ le_rfl
      rw [List.take_of_length_le (by simp), List.take_of_length_le (by simp)] at hlast
      rw [List.take_of_length_le (by simpa using hi), List.take_of_length_le (by simpa using hi)]
      exact hlast

/-- **No false alarm on the pipeline.** For every program, all latencies of memories that answer
in the end, and no interrupt: if the Spike log follows the hart through `n` instructions up to
its ECALL, behind boot code that ends at `0x1010`, and the RTL log has the register writes that
the pipeline makes up to the cycle in which its instruction `n` leaves EX, the seed passes.
Spike's disassembler is arbitrary but for writing `ecall` for that word only. -/
theorem processSeed_pipeline (c : Config) (hprog : HoldsProgram imem prog)
    {r₀ : Clocked.Recorded (Clocked.Recorded Core FetchLog) RunLog}
    {x : ℕ → CoreIn c.numExtInterrupts} (hr : (runSystem c imem mem).init r₀)
    (hx : (runSystem c imem mem).Run r₀ x) (hfair : FairMemories c r₀.sys x)
    {disasm : Word → Text} (hdisasm : ∀ w, disasm w = "ecall".toList ↔ w = ecallInstr) :
    ∃ f : ℕ → ℕ, StrictMono f ∧ (∀ t, departs c r₀.sys x t ↔ ∃ k, f k = t) ∧
      ∀ (instrStr : Text → Text) (boot es : List SpikeEntry) (last : SpikeEntry)
        (rs : List Retirement) (rtlLog : List (Option RtlMatch)),
        (∀ e ∈ boot, e.pc ≠ 0x1010#32) → last.pc = 0x1010#32 → FollowsHart c mem prog es →
        rtlLog.reduceOption = rs.map rtlMatch →
        rtlWrites rs =
          ((runSystem c imem mem).stateAt r₀ x (f (spikeBeforeEcall es).length)).log.regWrites ++
            (wbWrite
              (coreAfter c r₀.sys x (f (spikeBeforeEcall es).length)).pipe).toList →
        processSeed instrStr ((RiscvV2.spikeLog (boot ++ last :: es)).map (spikeLine disasm))
          rtlLog = true := by
  obtain ⟨f, hmono, hdeparts, hcommits⟩ := sequential_completed c imem mem hr hx hfair
  refine ⟨f, hmono, hdeparts, ?_⟩
  intro instrStr boot es last rs rtlLog hboot hlast hes hrtl hwrites
  refine (processSeed_iff_history hdisasm instrStr hboot hlast hrtl).mpr (.inl ?_)
  rw [registerHistory_eq_iff, changes_of_followsHart hprog hes, hwrites,
    (hcommits (spikeBeforeEcall es).length).regWrites]

/-- `addi x1, x0, 7; ecall` in the program memory of the verification top. -/
def addiOps : Rv32.Program := fun addr =>
  if addr = 0x80000000#32 then some (.instr (.arithImm .add 1#5 0#5 7#12))
  else if addr = 0x80000004#32 then some .ecall
  else none

/-- The verification top with an empty data memory, out of reset. -/
def topStart : Clocked.Recorded (Clocked.Recorded Core FetchLog) RunLog :=
  ⟨⟨coreReset cpuTopConfig, {}⟩, { mem := fun _ => 0#32 }⟩

theorem followsHart_addi : FollowsHart cpuTopConfig (fun _ => 0#32) addiOps addiLog := by
  intro i hi
  have hlength : (spikeBeforeEcall addiLog).length = 1 := by decide
  rw [hlength] at hi
  obtain rfl | rfl : i = 0 ∨ i = 1 := by omega
  · exact ⟨_, rfl, rfl⟩
  · refine ⟨_, rfl, ?_⟩
    funext rd
    revert rd
    decide

theorem processSeed_pipeline_addi :
    processSeed (fun _ => [])
      ((RiscvV2.spikeLog (bootJump :: addiLog)).map (spikeLine addiDisasm))
      [some (rtlMatch addiRetired)] = true := by
  have hinit : (runSystem cpuTopConfig addiOps.words (fun _ => 0#32)).init topStart :=
    ⟨⟨rfl, rfl⟩, rfl⟩
  obtain ⟨f, hmono, hdeparts, hpasses⟩ := processSeed_pipeline cpuTopConfig
    (holdsProgram_words addiOps) hinit (prompt_run topStart) (prompt_fair topStart)
    addiDisasm_eq_ecall_iff
  obtain ⟨g, hmono', hdeparts', hcommits⟩ := sequential_completed cpuTopConfig addiOps.words
    (fun _ => 0#32) hinit (prompt_run topStart) (prompt_fair topStart)
  have hfg : f = g := by
    refine (hmono.range_inj hmono').mp (Set.ext fun t => ?_)
    exact (hdeparts t).symm.trans (hdeparts' t)
  subst hfg
  refine hpasses (fun _ => []) [] addiLog bootJump [addiRetired] _ (by simp) rfl followsHart_addi
    rfl ?_
  rw [(hcommits _).regWrites]
  decide

end pipeline

end Regression
