import RiscvV2.Pkg

/-!
# Instruction decoder (`riscv_decode.sv`)

A pure function of the instruction word. The outputs other than the immediate are what the
core later holds in the control half of ID/EX, so they form a record of their own.

The decoder is one case distinction on the opcode, and each branch starts from the same record
of defaults and sets what the instruction needs. The model keeps this shape. Branches that look
into `funct3` or `funct7` have a function of their own, named for the opcode, so that a fact
about one instruction class is a fact about one small function.

Illegal words are not rejected: an unknown opcode, like `FENCE`, decodes to an instruction that
writes nothing, jumps nowhere and raises no exception. What later stages may rely on is
therefore not that a word is legal but that the outputs fit together, which the second half of
the module proves for every 32-bit word.
-/

namespace RiscvV2

/-! ## Immediate generators

The five formats of the base instruction set, sign-extended from `instr[31]` except for the
upper immediate, which is shifted into place instead. -/

/-- Immediate of loads, `JALR` and the register-immediate operations. -/
def immI (instr : Word) : Word := (instr.extractLsb' 20 12).signExtend 32

/-- Offset of a store. -/
def immS (instr : Word) : Word :=
  (instr.extractLsb' 25 7 ++ instr.extractLsb' 7 5).signExtend 32

/-- Offset of a branch. Its lowest bit is not encoded and is zero. -/
def immB (instr : Word) : Word :=
  (instr.extractLsb' 31 1 ++ instr.extractLsb' 7 1 ++ instr.extractLsb' 25 6 ++
    instr.extractLsb' 8 4 ++ 0#1).signExtend 32

/-- Upper immediate of `LUI` and `AUIPC`. -/
def immU (instr : Word) : Word := instr.extractLsb' 12 20 ++ 0#12

/-- Offset of `JAL`. Its lowest bit is not encoded and is zero. -/
def immJ (instr : Word) : Word :=
  (instr.extractLsb' 31 1 ++ instr.extractLsb' 12 8 ++ instr.extractLsb' 20 1 ++
    instr.extractLsb' 21 10 ++ 0#1).signExtend 32

/-! ## Decoder outputs -/

/-- The decoder outputs other than the immediate. The defaults are those the decoder's
`always_comb` block starts from. -/
structure Ctrl where
  rs1 : BitVec 5 := 0
  rs2 : BitVec 5 := 0
  rd : BitVec 5 := 0
  funct3 : BitVec 3 := 0
  funct7 : BitVec 7 := 0
  csrAddr : BitVec 12 := 0
  useRs1 : Bool := false
  useRs2 : Bool := false
  srcAPc : Bool := false
  srcBImm : Bool := false
  regWrite : Bool := false
  memRead : Bool := false
  memWrite : Bool := false
  /-- 0 = byte, 1 = half, 2 = word -/
  memSize : BitVec 2 := 2
  memUnsigned : Bool := false
  jal : Bool := false
  jalr : Bool := false
  branchKind : BranchKind := .none
  wbSel : WbSel := .alu
  aluOp : AluOp := .add
  isEcall : Bool := false
  isEbreak : Bool := false
  isMret : Bool := false
  csrRead : Bool := false
  csrWrite : Bool := false
  deriving DecidableEq, Repr

/-- All decoder outputs. -/
structure Decoded where
  ctrl : Ctrl
  imm : Word
  deriving DecidableEq, Repr

/-- The instruction fields wired straight through, everything else at its default. -/
def decodeFields (instr : Word) : Ctrl where
  rd := instr.extractLsb' 7 5
  funct3 := instr.extractLsb' 12 3
  rs1 := instr.extractLsb' 15 5
  rs2 := instr.extractLsb' 20 5
  funct7 := instr.extractLsb' 25 7
  csrAddr := instr.extractLsb' 20 12

/-- Branch kind of an `OPCODE_BRANCH` instruction. -/
def decodeBranchKind (funct3 : BitVec 3) : BranchKind :=
  match funct3 with
  | 0b000#3 => .eq
  | 0b001#3 => .ne
  | 0b100#3 => .lt
  | 0b101#3 => .ge
  | 0b110#3 => .ltu
  | 0b111#3 => .geu
  | _ => .none

/-- Size and signedness of an `OPCODE_LOAD` instruction. -/
def decodeLoadSize (funct3 : BitVec 3) : BitVec 2 × Bool :=
  match funct3 with
  | 0b000#3 => (0#2, false)
  | 0b001#3 => (1#2, false)
  | 0b010#3 => (2#2, false)
  | 0b100#3 => (0#2, true)
  | 0b101#3 => (1#2, true)
  | _ => (2#2, false)

/-- Size of an `OPCODE_STORE` instruction. -/
def decodeStoreSize (funct3 : BitVec 3) : BitVec 2 :=
  match funct3 with
  | 0b000#3 => 0#2
  | 0b001#3 => 1#2
  | _ => 2#2

/-- ALU operation of an `OPCODE_OP_IMM` instruction. -/
def decodeOpImm (funct3 : BitVec 3) (funct7 : BitVec 7) : AluOp :=
  match funct3 with
  | 0b000#3 => .add
  | 0b001#3 => .sll
  | 0b010#3 => .slt
  | 0b011#3 => .sltu
  | 0b100#3 => .xor
  | 0b101#3 => if funct7.getLsbD 5 then .sra else .srl
  | 0b110#3 => .or
  | _ => .and

/-- ALU operation of an `OPCODE_OP` instruction. -/
def decodeOp (funct7 : BitVec 7) (funct3 : BitVec 3) : AluOp :=
  match funct7, funct3 with
  | 0b0000000#7, 0b000#3 => .add
  | 0b0100000#7, 0b000#3 => .sub
  | 0b0000000#7, 0b001#3 => .sll
  | 0b0000000#7, 0b010#3 => .slt
  | 0b0000000#7, 0b011#3 => .sltu
  | 0b0000000#7, 0b100#3 => .xor
  | 0b0000000#7, 0b101#3 => .srl
  | 0b0100000#7, 0b101#3 => .sra
  | 0b0000000#7, 0b110#3 => .or
  | 0b0000001#7, 0b000#3 => .mul
  | 0b0000001#7, 0b001#3 => .mulh
  | 0b0000001#7, 0b010#3 => .mulhsu
  | 0b0000001#7, 0b011#3 => .mulhu
  | 0b0000001#7, 0b100#3 => .div
  | 0b0000001#7, 0b101#3 => .divu
  | 0b0000001#7, 0b110#3 => .rem
  | 0b0000001#7, 0b111#3 => .remu
  | _, _ => .and

/-- Control outputs of a CSR instruction: `funct3` is not `000`. -/
def decodeCsr (f : Ctrl) : Ctrl :=
  let f' := { f with csrRead := true, regWrite := true, wbSel := .csr }
  match f.funct3 with
  | 0b001#3 => { f' with useRs1 := true, csrWrite := true }
  | 0b010#3 => { f' with useRs1 := true, csrWrite := f.rs1 != 0#5 }
  | 0b011#3 => { f' with useRs1 := true, csrWrite := f.rs1 != 0#5 }
  | 0b101#3 => { f' with csrWrite := true }
  | 0b110#3 => { f' with csrWrite := f.rs1 != 0#5 }
  | 0b111#3 => { f' with csrWrite := f.rs1 != 0#5 }
  | _ => { f' with csrRead := false, csrWrite := false, regWrite := false }

/-- Control outputs of an `OPCODE_SYSTEM` instruction. -/
def decodeSystem (f : Ctrl) : Ctrl :=
  if f.funct3 = 0b000#3 then
    match f.csrAddr with
    | 0x000#12 => { f with isEcall := true }
    | 0x001#12 => { f with isEbreak := true }
    | 0x302#12 => { f with isMret := true }
    | _ => f
  else decodeCsr f

/-- `riscv_decode`. `FENCE`/`FENCE.I` and unknown opcodes fall through to the defaults and
execute as a NOP. -/
def riscvDecode (instr : Word) : Decoded :=
  let f := decodeFields instr
  let opcode := instr.extractLsb' 0 7
  if opcode = opcodeLui then
    ⟨{ f with srcBImm := true, regWrite := true, aluOp := .copyB }, immU instr⟩
  else if opcode = opcodeAuipc then
    ⟨{ f with srcAPc := true, srcBImm := true, regWrite := true, aluOp := .add }, immU instr⟩
  else if opcode = opcodeJal then
    ⟨{ f with jal := true, regWrite := true, wbSel := .pc4 }, immJ instr⟩
  else if opcode = opcodeJalr then
    ⟨{ f with useRs1 := true, jalr := true, regWrite := true, wbSel := .pc4 }, immI instr⟩
  else if opcode = opcodeBranch then
    ⟨{ f with useRs1 := true, useRs2 := true, branchKind := decodeBranchKind f.funct3 },
      immB instr⟩
  else if opcode = opcodeLoad then
    let size := decodeLoadSize f.funct3
    ⟨{ f with useRs1 := true, srcBImm := true, regWrite := true, memRead := true,
              wbSel := .load, memSize := size.1, memUnsigned := size.2 }, immI instr⟩
  else if opcode = opcodeStore then
    ⟨{ f with useRs1 := true, useRs2 := true, srcBImm := true, memWrite := true,
              memSize := decodeStoreSize f.funct3 }, immS instr⟩
  else if opcode = opcodeOpImm then
    ⟨{ f with useRs1 := true, srcBImm := true, regWrite := true,
              aluOp := decodeOpImm f.funct3 f.funct7 }, immI instr⟩
  else if opcode = opcodeOp then
    ⟨{ f with useRs1 := true, useRs2 := true, regWrite := true,
              aluOp := decodeOp f.funct7 f.funct3 }, 0⟩
  else if opcode = opcodeSystem then
    ⟨decodeSystem f, 0⟩
  else
    ⟨f, 0⟩

/-! ## What every decoded instruction satisfies

The control outputs of one instruction are not independent: only `OPCODE_OP` reaches the
multicycle units, only loads and stores touch memory, and so on. `Ctrl.Coherent` collects
the dependencies the pipeline relies on. -/

/-- The multiply operations. -/
def AluOp.isMul : AluOp → Bool
  | .mul | .mulh | .mulhsu | .mulhu => true
  | _ => false

/-- The divide and remainder operations. -/
def AluOp.isDiv : AluOp → Bool
  | .div | .divu | .rem | .remu => true
  | _ => false

/-- A load or a store. -/
def Ctrl.isMem (d : Ctrl) : Bool := d.memRead || d.memWrite

/-- An operation of the multicycle units. -/
def Ctrl.isMulDiv (d : Ctrl) : Bool := d.aluOp.isMul || d.aluOp.isDiv

/-- A control transfer other than a trap. -/
def Ctrl.isJump (d : Ctrl) : Bool := d.isMret || d.jalr || d.jal || d.branchKind != .none

/-- A system instruction that traps by itself. -/
def Ctrl.isEnvCall (d : Ctrl) : Bool := d.isEcall || d.isEbreak

/-- The dependencies between the control outputs of one instruction. -/
structure Ctrl.Coherent (d : Ctrl) : Prop where
  /-- no instruction both loads and stores -/
  load_not_store : d.memRead = true → d.memWrite = false
  /-- loads and stores compute their address as `rs1 + imm` and do nothing else in EX -/
  mem : d.isMem = true → d.aluOp = .add ∧ d.srcAPc = false ∧ d.srcBImm = true ∧
    d.useRs1 = true ∧ d.memSize ≠ 3#2 ∧ d.csrRead = false ∧ d.isJump = false ∧
    d.isEnvCall = false
  /-- multiplications and divisions only produce a register result from both registers -/
  mulDiv : d.isMulDiv = true → d.useRs1 = true ∧ d.useRs2 = true ∧ d.srcAPc = false ∧
    d.srcBImm = false ∧ d.wbSel = .alu ∧ d.isMem = false ∧ d.csrRead = false ∧
    d.isJump = false ∧ d.isEnvCall = false
  /-- CSR instructions neither jump nor trap by themselves -/
  csr : d.csrRead = true → d.isMem = false ∧ d.isJump = false ∧ d.isEnvCall = false
  /-- an operand that reaches a register result or an address is flagged as used -/
  operands : (d.regWrite = true ∧ d.wbSel = .alu) ∨ d.isMem = true →
    (d.srcAPc = false → d.aluOp ≠ .copyB → d.useRs1 = true) ∧
    (d.srcBImm = false → d.useRs2 = true)
  /-- a store flags its data operand and writes no register -/
  store : d.memWrite = true → d.useRs2 = true ∧ d.regWrite = false
  /-- loaded data is written back by loads only -/
  load : d.regWrite = true → (d.wbSel = .load ↔ d.memRead = true)
  /-- `JALR` flags its base register -/
  jalr : d.jalr = true → d.useRs1 = true
  /-- branches flag both registers -/
  branch : d.branchKind ≠ .none → d.useRs1 = true ∧ d.useRs2 = true
  /-- `MRET` writes no register -/
  mret : d.isMret = true → d.regWrite = false
  /-- the register forms of the CSR instructions flag their source -/
  csrSource : d.csrRead = true → d.funct3 = 1#3 ∨ d.funct3 = 2#3 ∨ d.funct3 = 3#3 →
    d.useRs1 = true

/-- An instruction that neither touches memory nor uses a multicycle unit or a CSR. -/
theorem Ctrl.Coherent.of_plain {d : Ctrl} (hmem : d.isMem = false) (hop : d.isMulDiv = false)
    (hcsr : d.csrRead = false) (hsel : d.wbSel ≠ .load)
    (hoperands : d.regWrite = true → d.wbSel = .alu →
      (d.srcAPc = false → d.aluOp ≠ .copyB → d.useRs1 = true) ∧
      (d.srcBImm = false → d.useRs2 = true))
    (hjalr : d.jalr = true → d.useRs1 = true)
    (hbranch : d.branchKind ≠ .none → d.useRs1 = true ∧ d.useRs2 = true)
    (hmret : d.isMret = true → d.regWrite = false) : d.Coherent := by
  obtain ⟨hread, hwrite⟩ := Bool.or_eq_false_iff.mp hmem
  refine ⟨fun _ => hwrite, ?_, ?_, ?_, ?_, ?_, ?_, hjalr, hbranch, hmret, ?_⟩
  · intro h
    rw [hmem] at h
    cases h
  · intro h
    rw [hop] at h
    cases h
  · intro h
    rw [hcsr] at h
    cases h
  · rintro (⟨hreg, halu⟩ | h)
    · exact hoperands hreg halu
    · rw [hmem] at h
      cases h
  · intro h
    rw [hwrite] at h
    cases h
  · intro _
    rw [hread]
    exact ⟨fun h => absurd h hsel, (fun h => by cases h)⟩
  · intro h
    rw [hcsr] at h
    cases h

theorem decodeOpImm_not_mulDiv (funct3 : BitVec 3) (funct7 : BitVec 7) :
    ((decodeOpImm funct3 funct7).isMul || (decodeOpImm funct3 funct7).isDiv) = false := by
  unfold decodeOpImm
  split
  case h_6 => split_ifs <;> rfl
  all_goals rfl

theorem decodeLoadSize_ne (funct3 : BitVec 3) : (decodeLoadSize funct3).1 ≠ 3#2 := by
  unfold decodeLoadSize
  split <;> decide

theorem decodeStoreSize_ne (funct3 : BitVec 3) : decodeStoreSize funct3 ≠ 3#2 := by
  unfold decodeStoreSize
  split <;> decide

/-- A CSR instruction; `use` flags its register operand, `write` a write. -/
theorem csr_coherent (instr : Word) (use write : Bool)
    (huse : (decodeFields instr).funct3 = 1#3 ∨ (decodeFields instr).funct3 = 2#3 ∨
      (decodeFields instr).funct3 = 3#3 → use = true) :
    ({ decodeFields instr with
        csrRead := true, regWrite := true, wbSel := .csr, useRs1 := use,
        csrWrite := write } : Ctrl).Coherent where
  load_not_store h := by cases h
  mem h := by cases h
  mulDiv h := by cases h
  csr _ := ⟨rfl, rfl, rfl⟩
  operands h := by
    obtain ⟨-, h⟩ | h := h
    · cases h
    · cases h
  store h := by cases h
  load _ := ⟨(fun h => by cases h), (fun h => by cases h)⟩
  jalr h := by cases h
  branch h := absurd rfl h
  mret h := by cases h
  csrSource _ h := huse h

theorem decodeCsr_coherent (instr : Word) : (decodeCsr (decodeFields instr)).Coherent := by
  unfold decodeCsr
  split
  case h_1 | h_2 | h_3 => exact csr_coherent instr true _ fun _ => rfl
  -- the immediate forms have no register operand to flag
  case h_4 hf | h_5 hf | h_6 hf =>
    refine csr_coherent instr false _ fun h => ?_
    rw [hf] at h
    revert h
    decide
  case h_7 =>
    exact .of_plain rfl rfl rfl (fun h => by cases h) (fun h => by cases h) (fun h => by cases h)
      (fun h => absurd rfl h) (fun h => by cases h)

theorem decodeSystem_coherent (instr : Word) :
    (decodeSystem (decodeFields instr)).Coherent := by
  unfold decodeSystem
  split_ifs with hf
  · split <;>
      exact .of_plain rfl rfl rfl (fun h => by cases h) (fun h => by cases h)
        (fun h => by cases h) (fun h => absurd rfl h) (fun _ => rfl)
  · exact decodeCsr_coherent instr

theorem Decoded.coherent_ite {opcode : Prop} [Decidable opcode] {d e : Decoded}
    (hd : d.ctrl.Coherent) (he : e.ctrl.Coherent) :
    (if opcode then d else e).ctrl.Coherent := by
  split
  · exact hd
  · exact he

/-- **Every decoded instruction is coherent.** -/
theorem riscvDecode_coherent (instr : Word) : (riscvDecode instr).ctrl.Coherent := by
  unfold riscvDecode
  refine Decoded.coherent_ite ?lui (Decoded.coherent_ite ?auipc (Decoded.coherent_ite ?jal
    (Decoded.coherent_ite ?jalr (Decoded.coherent_ite ?branch (Decoded.coherent_ite ?load
    (Decoded.coherent_ite ?store (Decoded.coherent_ite ?opImm (Decoded.coherent_ite ?op
    (Decoded.coherent_ite ?system ?other)))))))))
  case lui =>
    exact .of_plain rfl rfl rfl (fun h => by cases h)
      (fun _ _ => ⟨fun _ h => absurd rfl h, fun h => by cases h⟩) (fun h => by cases h)
      (fun h => absurd rfl h) (fun h => by cases h)
  case auipc =>
    exact .of_plain rfl rfl rfl (fun h => by cases h)
      (fun _ _ => ⟨fun h => (by cases h), fun h => by cases h⟩) (fun h => by cases h)
      (fun h => absurd rfl h) (fun h => by cases h)
  case jal =>
    exact .of_plain rfl rfl rfl (fun h => by cases h) (fun _ h => by cases h)
      (fun h => by cases h) (fun h => absurd rfl h) (fun h => by cases h)
  case jalr =>
    exact .of_plain rfl rfl rfl (fun h => by cases h) (fun _ h => by cases h) (fun _ => rfl)
      (fun h => absurd rfl h) (fun h => by cases h)
  case branch =>
    exact .of_plain rfl rfl rfl (fun h => by cases h) (fun h => by cases h)
      (fun h => by cases h) (fun _ => ⟨rfl, rfl⟩) (fun h => by cases h)
  case load =>
    exact
      { load_not_store := fun _ => rfl
        mem := fun _ => ⟨rfl, rfl, rfl, rfl, decodeLoadSize_ne _, rfl, rfl, rfl⟩
        mulDiv := fun h => by cases h
        csr := fun h => by cases h
        operands := fun _ => ⟨fun _ _ => rfl, fun h => by cases h⟩
        store := fun h => by cases h
        load := fun _ => ⟨fun _ => rfl, fun _ => rfl⟩
        jalr := fun h => by cases h
        branch := fun h => absurd rfl h
        mret := fun h => by cases h
        csrSource := fun h => by cases h }
  case store =>
    exact
      { load_not_store := fun h => by cases h
        mem := fun _ => ⟨rfl, rfl, rfl, rfl, decodeStoreSize_ne _, rfl, rfl, rfl⟩
        mulDiv := fun h => by cases h
        csr := fun h => by cases h
        operands := fun _ => ⟨fun _ _ => rfl, fun _ => rfl⟩
        store := fun _ => ⟨rfl, rfl⟩
        load := fun h => by cases h
        jalr := fun h => by cases h
        branch := fun h => absurd rfl h
        mret := fun h => by cases h
        csrSource := fun h => by cases h }
  case opImm =>
    exact .of_plain rfl (decodeOpImm_not_mulDiv _ _) rfl (fun h => by cases h)
      (fun _ _ => ⟨fun _ _ => rfl, fun h => by cases h⟩) (fun h => by cases h)
      (fun h => absurd rfl h) (fun h => by cases h)
  case op =>
    exact
      { load_not_store := fun h => by cases h
        mem := fun h => by cases h
        mulDiv := fun _ => ⟨rfl, rfl, rfl, rfl, rfl, rfl, rfl, rfl, rfl⟩
        csr := fun h => by cases h
        operands := fun _ => ⟨fun _ _ => rfl, fun _ => rfl⟩
        store := fun h => by cases h
        load := fun _ => ⟨fun h => (by cases h), fun h => by cases h⟩
        jalr := fun h => by cases h
        branch := fun h => absurd rfl h
        mret := fun h => by cases h
        csrSource := fun h => by cases h }
  case system => exact decodeSystem_coherent instr
  case other => -- FENCE and unknown opcodes
    exact .of_plain rfl rfl rfl (fun h => by cases h) (fun h => by cases h)
      (fun h => by cases h) (fun h => absurd rfl h) (fun h => by cases h)

/-- If it is a `JAL` or a branch, its offset is even. -/
def Decoded.EvenJump (d : Decoded) : Prop :=
  d.ctrl.jal = true ∨ d.ctrl.branchKind ≠ .none → d.imm.getLsbD 0 = false

theorem Decoded.EvenJump.of_plain {d : Decoded} (hjal : d.ctrl.jal = false)
    (hbranch : d.ctrl.branchKind = .none) : d.EvenJump := by
  rintro (h | h)
  · rw [hjal] at h
    cases h
  · exact absurd hbranch h

theorem Decoded.evenJump_ite {opcode : Prop} [Decidable opcode] {d e : Decoded}
    (hd : d.EvenJump) (he : e.EvenJump) : (if opcode then d else e).EvenJump := by
  split
  · exact hd
  · exact he

theorem decodeCsr_jump (f : Ctrl) :
    (decodeCsr f).jal = f.jal ∧ (decodeCsr f).branchKind = f.branchKind := by
  unfold decodeCsr
  split <;> exact ⟨rfl, rfl⟩

theorem decodeSystem_jump (f : Ctrl) :
    (decodeSystem f).jal = f.jal ∧ (decodeSystem f).branchKind = f.branchKind := by
  unfold decodeSystem
  split_ifs
  · split <;> exact ⟨rfl, rfl⟩
  · exact decodeCsr_jump f

theorem getLsbD_zero_offset {n : ℕ} (x : BitVec n) :
    ((x ++ 0#1).signExtend 32).getLsbD 0 = false := by
  rw [BitVec.getLsbD_signExtend, if_pos (Nat.succ_pos n), BitVec.getLsbD_append]
  rfl

/-- **The offsets of `JAL` and of the branches are even.** -/
theorem riscvDecode_evenJump (instr : Word) : (riscvDecode instr).EvenJump := by
  unfold riscvDecode
  refine Decoded.evenJump_ite ?lui (Decoded.evenJump_ite ?auipc (Decoded.evenJump_ite ?jal
    (Decoded.evenJump_ite ?jalr (Decoded.evenJump_ite ?branch (Decoded.evenJump_ite ?load
    (Decoded.evenJump_ite ?store (Decoded.evenJump_ite ?opImm (Decoded.evenJump_ite ?op
    (Decoded.evenJump_ite ?system ?other)))))))))
  case jal =>
    exact fun _ => getLsbD_zero_offset _
  case branch =>
    exact fun _ => getLsbD_zero_offset _
  case system =>
    obtain ⟨hjal, hbranch⟩ := decodeSystem_jump (decodeFields instr)
    exact .of_plain hjal hbranch
  case lui | auipc | jalr | load | store | opImm | op | other => exact .of_plain rfl rfl

end RiscvV2
