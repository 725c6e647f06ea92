import RiscvV2.Hart

/-!
# Reasoning about code

A weakest precondition for machine code. Code is a list of operations without an address: it
works wherever it stands. A hart at its first operation gets to its end, and there has the
postcondition. Before each operation on the way it satisfies a guard, so that not only what
the code leaves can be said but also what it does meanwhile.

The rules are those of a sequential language, one for each way to go on: fall through, skip
what comes next, and go on with the code behind.

The postcondition and the guard are arbitrary, and the platform and its CSRs are parameters, so
the rules hold for every implementation of the architecture. Rules for single operations are
stated for the outcome that the ISA gives to them, not for their encodings.
-/

namespace Rv32

/-! ## Registers and bytes

How a write to a register or to memory shows in what is read later. Two accesses are apart if no
byte is touched by both. -/

namespace RegFile

variable (r : RegFile) {rd x : Reg} (v : BitVec 32)

theorem get_set_self (hrd : rd ≠ 0#5) : (r.set rd v).get rd = v := if_pos ⟨rfl, hrd⟩

theorem get_set_of_ne (hx : x ≠ rd) : (r.set rd v).get x = r.get x :=
  if_neg fun h => hx h.1

theorem set_zero : r.set 0#5 v = r := by
  refine RegFile.ext (funext fun x => ?_)
  exact if_neg fun h => h.2 rfl

theorem set_set (rd : Reg) (v' : BitVec 32) : (r.set rd v).set rd v' = r.set rd v' := by
  refine RegFile.ext (funext fun x => ?_)
  simp only [set]
  split_ifs <;> rfl

end RegFile

namespace ByteMem

variable {m m' : ByteMem} {width width' : Width} {addr addr' data : BitVec 32} {unsigned : Bool}

/-- A load looks at the bytes of its access only. -/
theorem load_congr (h : ∀ x, Touches width addr x → m x = m' x) :
    m.load width unsigned addr = m'.load width unsigned addr := by
  have hbyte : ∀ k < width.bytes, m (addr + BitVec.ofNat 32 k) = m' (addr + BitVec.ofNat 32 k) := by
    intro k hk
    have hsmall : k < 2 ^ 32 := hk.trans_le (by cases width <;> decide)
    refine h _ ?_
    rw [Touches, BitVec.add_comm, BitVec.add_sub_cancel, BitVec.toNat_ofNat,
      Nat.mod_eq_of_lt hsmall]
    exact hk
  have hzero : m addr = m' addr := by
    have h0 := hbyte 0 (by cases width <;> decide)
    rwa [BitVec.add_zero] at h0
  have hread : m.read addr width = m'.read addr width := by
    cases width with
    | byte => exact hzero
    | half => rw [read, read, hzero, hbyte 1 (by decide)]
    | word =>
      rw [read, read, hzero, hbyte 1 (by decide), hbyte 2 (by decide), hbyte 3 (by decide)]
  rw [load, load, hread]

/-- A store elsewhere does not change what is loaded. -/
theorem load_store_of_disjoint
    (h : addr.toNat + width.bytes ≤ addr'.toNat ∨ addr'.toNat + width'.bytes ≤ addr.toNat)
    (hend : addr.toNat + width.bytes ≤ 2 ^ 32) (hend' : addr'.toNat + width'.bytes ≤ 2 ^ 32) :
    (m.store width addr data).load width' unsigned addr' = m.load width' unsigned addr' := by
  refine load_congr fun x hx => if_neg fun hx' => ?_
  have hx₀ := x.isLt
  rw [Touches, BitVec.toNat_sub] at hx hx'
  have ha := addr.isLt
  have ha' := addr'.isLt
  omega

/-- What was stored is read back. -/
theorem read_store (m : ByteMem) (width : Width) (addr data : BitVec 32) :
    (m.store width addr data).read addr width = data.setWidth (8 * width.bytes) := by
  have hbyte : ∀ k < width.bytes, (m.store width addr data) (addr + BitVec.ofNat 32 k) =
      data.extractLsb' (8 * k) 8 := by
    intro k hk
    have hsmall : k < 2 ^ 32 := hk.trans_le (by cases width <;> decide)
    have hoff : (addr + BitVec.ofNat 32 k - addr).toNat = k := by
      rw [BitVec.add_comm, BitVec.add_sub_cancel, BitVec.toNat_ofNat, Nat.mod_eq_of_lt hsmall]
    have htouch : Touches width addr (addr + BitVec.ofNat 32 k) := by
      rw [Touches, hoff]
      exact hk
    rw [store, if_pos htouch, hoff]
  have hzero := hbyte 0 (by cases width <;> decide)
  rw [BitVec.add_zero] at hzero
  cases width with
  | byte => exact hzero.trans (BitVec.setWidth_eq_extractLsb' (by decide)).symm
  | half =>
    rw [read, hzero, hbyte 1 (by decide), BitVec.setWidth_eq_extractLsb' (by decide)]
    exact BitVec.extractLsb'_append_extractLsb'_eq_extractLsb' (by omega)
  | word =>
    rw [read, hzero, hbyte 1 (by decide), hbyte 2 (by decide), hbyte 3 (by decide),
      BitVec.extractLsb'_append_extractLsb'_eq_extractLsb' (by omega),
      BitVec.extractLsb'_append_extractLsb'_eq_extractLsb' (by omega),
      BitVec.setWidth_eq_extractLsb' (by decide)]
    exact BitVec.extractLsb'_append_extractLsb'_eq_extractLsb' (by omega)

theorem load_store (m : ByteMem) (width : Width) (addr data : BitVec 32) (unsigned : Bool) :
    (m.store width addr data).load width unsigned addr =
      if unsigned then (data.setWidth (8 * width.bytes)).setWidth 32
      else (data.setWidth (8 * width.bytes)).signExtend 32 := by
  rw [load, read_store]

/-- A word that was stored is loaded back. -/
theorem load_store_word :
    (m.store .word addr data).load .word unsigned addr = data := by
  have hdata : data.setWidth (8 * Width.word.bytes) = data := BitVec.setWidth_eq data
  rw [load_store, hdata]
  split_ifs
  · exact BitVec.setWidth_eq data
  · exact BitVec.signExtend_eq data

end ByteMem

/-! ## Code in a program

A list of operations stands at an address if the program has them there, four bytes apart. -/

namespace Program

variable {prog : Program}

/-- The operations stand one behind the other from `addr` on. -/
def Holds (prog : Program) (addr : BitVec 32) : List Op → Prop
  | [] => True
  | op :: ops => prog addr = some op ∧ prog.Holds (addr + 4#32) ops

theorem add_four_mul (addr : BitVec 32) (n : ℕ) :
    addr + 4#32 + BitVec.ofNat 32 (4 * n) = addr + BitVec.ofNat 32 (4 * (n + 1)) := by
  rw [BitVec.add_assoc, ← BitVec.ofNat_add, Nat.mul_succ, Nat.add_comm]

theorem holds_append {addr : BitVec 32} (ops ops' : List Op) :
    prog.Holds addr (ops ++ ops') ↔
      prog.Holds addr ops ∧ prog.Holds (addr + BitVec.ofNat 32 (4 * ops.length)) ops' := by
  induction ops generalizing addr with
  | nil =>
    rw [List.length_nil, Nat.mul_zero, BitVec.add_zero]
    exact ⟨fun h => ⟨trivial, h⟩, And.right⟩
  | cons op ops ih =>
    rw [List.cons_append, Holds, Holds, ih, and_assoc, add_four_mul, List.length_cons]

/-- A list of operations that fits the address space stands at address 0. -/
theorem holds_ofList {ops : List Op} (hlen : 4 * ops.length ≤ 2 ^ 32) :
    (ofList ops).Holds 0#32 ops := by
  -- by induction on what still has to be found, behind what has been
  suffices h : ∀ rest front : List Op, front ++ rest = ops →
      (ofList ops).Holds (BitVec.ofNat 32 (4 * front.length)) rest from h ops [] rfl
  intro rest
  induction rest with
  | nil =>
    intro front _
    trivial
  | cons op rest ih =>
    rintro front rfl
    have hlength : (front ++ op :: rest).length = front.length + (rest.length + 1) := by simp
    refine ⟨?_, ?_⟩
    · have haddr : (BitVec.ofNat 32 (4 * front.length)).toNat = 4 * front.length := by
        rw [BitVec.toNat_ofNat]
        omega
      rw [ofList, haddr, if_pos (Nat.mul_mod_right 4 _), Nat.mul_div_cancel_left _ (by decide)]
      simp
    · have hnext := ih (front ++ [op]) (by simp)
      rw [List.length_append, List.length_singleton, Nat.mul_succ, BitVec.ofNat_add] at hnext
      exact hnext

end Program

/-! ## Runs with a guard -/

namespace Hart

variable {C : Type} {P : Platform C} {prog : Program} {h h₁ h₂ : Hart C}

theorem run_add (m n : ℕ) :
    h.run P prog (m + n) = (h.run P prog m).bind fun g => g.run P prog n := by
  induction n with
  | zero => exact (Option.bind_fun_some _).symm
  | succ n ih =>
    rw [← Nat.add_assoc, run, ih, Option.bind_assoc]
    rfl

/-- `n` operations lead from one state to the other, all of them under the guard. -/
structure Path (P : Platform C) (G : Hart C → Op → Prop) (prog : Program) (n : ℕ)
    (h h₁ : Hart C) : Prop where
  run : h.run P prog n = some h₁
  guarded : ∀ k < n, ∀ g op, h.run P prog k = some g → prog g.pc = some op → G g op

variable {G : Hart C → Op → Prop} {m n : ℕ}

theorem Path.nil : Path P G prog 0 h h := ⟨rfl, fun _ hk => absurd hk (Nat.not_lt_zero _)⟩

theorem Path.single {op : Op} (hop : prog h.pc = some op) (hG : G h op) :
    Path P G prog 1 h (h.exec P op) := by
  refine ⟨?_, fun k hk g op' hg hop' => ?_⟩
  · change (prog h.pc).map (h.exec P) = some (h.exec P op)
    rw [hop, Option.map_some]
  · obtain rfl := Nat.lt_one_iff.mp hk
    obtain rfl := Option.some.inj hg
    obtain rfl := Option.some.inj (hop.symm.trans hop')
    exact hG

theorem Path.trans (hm : Path P G prog m h h₁) (hn : Path P G prog n h₁ h₂) :
    Path P G prog (m + n) h h₂ := by
  refine ⟨?_, fun k hk g op hg hop => ?_⟩
  · rw [run_add, hm.run, Option.bind_some, hn.run]
  · rcases Nat.lt_or_ge k m with hkm | hkm
    · exact hm.guarded k hkm g op hg hop
    · obtain ⟨j, rfl⟩ := Nat.exists_eq_add_of_le hkm
      rw [run_add, hm.run, Option.bind_some] at hg
      exact hn.guarded j (by omega) g op hg hop

/-! ## The weakest precondition

The number of operations is left open by the precondition, since a branch may skip some of the
code. The composition rule is that of sequential code: the precondition of what follows is the
postcondition of what comes first. -/

/-- **The weakest precondition of code**: wherever the code stands, with the hart at its
first operation, the hart gets to its end, under the guard all the way, and there has the
postcondition. -/
def wp (P : Platform C) (G : Hart C → Op → Prop) (ops : List Op) (post : Hart C → Prop)
    (h : Hart C) : Prop :=
  ∀ prog : Program, prog.Holds h.pc ops →
    ∃ n h', Path P G prog n h h' ∧ h'.pc = h.pc + BitVec.ofNat 32 (4 * ops.length) ∧ post h'

variable {op : Op} {ops ops' : List Op} {post mid : Hart C → Prop}

theorem wp_nil (hpost : post h) : h.wp P G [] post := by
  intro prog _
  refine ⟨0, h, .nil, ?_, hpost⟩
  exact (BitVec.add_zero _).symm

theorem wp_mono (hw : h.wp P G ops mid) (himp : ∀ g, mid g → post g) : h.wp P G ops post := by
  intro prog hcode
  obtain ⟨n, h', hpath, hpc, hmid⟩ := hw prog hcode
  exact ⟨n, h', hpath, hpc, himp h' hmid⟩

theorem wp_append (hw : h.wp P G ops fun g => g.wp P G ops' post) :
    h.wp P G (ops ++ ops') post := by
  intro prog hcode
  obtain ⟨hfirst, hsecond⟩ := (Program.holds_append ops ops').mp hcode
  obtain ⟨m, h₁, hpath, hpc, hw'⟩ := hw prog hfirst
  rw [← hpc] at hsecond
  obtain ⟨n, h₂, hpath', hpc', hpost⟩ := hw' prog hsecond
  refine ⟨m + n, h₂, hpath.trans hpath', ?_, hpost⟩
  rw [hpc', hpc, BitVec.add_assoc, ← BitVec.ofNat_add, List.length_append, Nat.mul_add]

/-- An operation that goes on behind the code that follows it. -/
theorem wp_skip (skipped : List Op) (hG : G h op)
    (hpc : (h.exec P op).pc = h.pc + BitVec.ofNat 32 (4 * (skipped.length + 1)))
    (hw : (h.exec P op).wp P G ops post) : h.wp P G (op :: skipped ++ ops) post := by
  refine wp_append fun prog hcode => ⟨1, h.exec P op, .single hcode.1 hG, ?_, hw⟩
  rw [hpc, List.length_cons]

/-- An operation that falls through. -/
theorem wp_cons (hG : G h op) (hpc : (h.exec P op).pc = h.pc + 4#32)
    (hw : (h.exec P op).wp P G ops post) : h.wp P G (op :: ops) post :=
  wp_skip [] hG hpc hw

/-! ## Operations -/

section exec

variable (h)

/-- An instruction that only computes. -/
theorem exec_of_compute {i : Instr} {rd : Reg} {v : BitVec 32}
    (ho : h.outcome P i = .compute h.pc rd v) :
    h.exec P (.instr i) = { h with pc := h.pc + 4#32, regs := h.regs.set rd v } := by
  rw [exec, ho]
  rfl

/-- A store that raises no exception. -/
theorem exec_store {width : Width} {rs1 : Reg} (rs2 : Reg) {offset : BitVec 12}
    (hal : (h.regs.get rs1 + offset.signExtend 32).toNat % width.bytes = 0)
    (hfault : P.fault (h.regs.get rs1 + offset.signExtend 32) = false) :
    h.exec P (.instr (.store width rs1 rs2 offset)) =
      { h with
        pc := h.pc + 4#32
        mem := h.mem.store width (h.regs.get rs1 + offset.signExtend 32) (h.regs.get rs2) } := by
  have hexc : exception P (h.outcome P (.store width rs1 rs2 offset)) = none := by
    have hnone : (MemOp.store width (h.regs.get rs1 + offset.signExtend 32)
        (h.regs.get rs2)).exception P.fault = none :=
      (if_neg (not_not.mpr hal)).trans (if_neg (Bool.eq_false_iff.mp hfault))
    exact Option.map_eq_none_iff.mpr hnone
  rw [exec, hexc]
  rfl

/-- A load that raises no exception. -/
theorem exec_load {load : LoadOp} (rd : Reg) {rs1 : Reg} {offset : BitVec 12}
    (hal : (h.regs.get rs1 + offset.signExtend 32).toNat % load.width.bytes = 0)
    (hfault : P.fault (h.regs.get rs1 + offset.signExtend 32) = false) :
    h.exec P (.instr (.load load rd rs1 offset)) =
      { h with
        pc := h.pc + 4#32
        regs := h.regs.set rd
          (h.mem.load load.width load.unsigned (h.regs.get rs1 + offset.signExtend 32)) } := by
  have hexc : exception P (h.outcome P (.load load rd rs1 offset)) = none := by
    have hnone : (MemOp.load load.width load.unsigned
        (h.regs.get rs1 + offset.signExtend 32)).exception P.fault = none :=
      (if_neg (not_not.mpr hal)).trans (if_neg (Bool.eq_false_iff.mp hfault))
    exact Option.map_eq_none_iff.mpr hnone
  rw [exec, hexc]
  rfl

end exec

/-! ### Rules for operations -/

theorem wp_compute {i : Instr} {rd : Reg} {v : BitVec 32} (hG : G h (.instr i))
    (ho : h.outcome P i = .compute h.pc rd v)
    (hw : wp P G ops post { h with pc := h.pc + 4#32, regs := h.regs.set rd v }) :
    h.wp P G (.instr i :: ops) post := by
  have hexec := exec_of_compute h ho
  refine wp_cons hG ?_ ?_
  · rw [hexec]
  · rw [hexec]
    exact hw

theorem wp_store {width : Width} {rs1 rs2 : Reg} {offset : BitVec 12} {addr : BitVec 32}
    (hG : G h (.instr (.store width rs1 rs2 offset)))
    (haddr : h.regs.get rs1 + offset.signExtend 32 = addr)
    (hal : addr.toNat % width.bytes = 0) (hfault : P.fault addr = false)
    (hw : wp P G ops post
      { h with pc := h.pc + 4#32, mem := h.mem.store width addr (h.regs.get rs2) }) :
    h.wp P G (.instr (.store width rs1 rs2 offset) :: ops) post := by
  subst haddr
  have hexec := exec_store h rs2 hal hfault
  refine wp_cons hG ?_ ?_
  · rw [hexec]
  · rw [hexec]
    exact hw

theorem wp_load {load : LoadOp} {rd rs1 : Reg} {offset : BitVec 12} {addr : BitVec 32}
    (hG : G h (.instr (.load load rd rs1 offset)))
    (haddr : h.regs.get rs1 + offset.signExtend 32 = addr)
    (hal : addr.toNat % load.width.bytes = 0) (hfault : P.fault addr = false)
    (hw : wp P G ops post
      { h with
        pc := h.pc + 4#32
        regs := h.regs.set rd (h.mem.load load.width load.unsigned addr) }) :
    h.wp P G (.instr (.load load rd rs1 offset) :: ops) post := by
  subst haddr
  have hexec := exec_load h rd hal hfault
  refine wp_cons hG ?_ ?_
  · rw [hexec]
  · rw [hexec]
    exact hw

end Hart

end Rv32
