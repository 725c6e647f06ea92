import RiscvV2.Execute
import RiscvV2.Sequential

/-!
# The load/store unit as a byte memory (`riscv_lsu.sv`)

The data memory is an array of words with byte strobes; a program sees bytes. `DataMem.bytes`
reads the array as the byte memory it stands for, and one operation of the load/store unit
is shown to be the operation of the ISA on those bytes. Store alignment and load extraction
never meet: each is compared with the bytes on its own.

The byte lane of an address is its low two bits, and an aligned access never leaves its word. So
everything comes down to lanes of one word: a strobe covers exactly the lanes that the access
touches, and the shifted data shows in each of them the byte that belongs there. A sequence of
operations then follows by induction, with the two memories side by side.

The last section places the unit in the core: whatever MEM puts on the data port is aligned,
since EX has trapped everything else, so there the result needs no assumption on the program.
-/

namespace RiscvV2

open Rv32 (ByteMem Touches Width)

/-! ## Operations of the load/store unit -/

/-- The inputs of `riscv_lsu` in a cycle, with the address its word memory sees. -/
structure LsuOp where
  memSize : BitVec 2
  memUnsigned : Bool
  addr : Word
  writeEn : Bool
  storeData : Word
  deriving DecidableEq, Repr

namespace LsuOp

/-- `addr_lo` -/
def addrLo (op : LsuOp) : BitVec 2 := op.addr.extractLsb' 0 2

/-- `write_data` on the memory port: the stored value, moved to its lanes. -/
def writeData (op : LsuOp) : Word := lsuWriteData op.memSize op.addrLo op.writeEn op.storeData

/-- `wstrb`: the lanes to be written. -/
def wstrb (op : LsuOp) : BitVec 4 := lsuWstrb op.memSize op.addrLo op.writeEn

/-- `load_data`, of the word the memory returns. -/
def loadData (op : LsuOp) (mem : DataMem) : Word :=
  lsuLoadData op.memSize op.memUnsigned op.addrLo (mem (wordIndex op.addr))

/-- The word memory after the cycle: the strobes alone decide what is written. -/
def next (mem : DataMem) (op : LsuOp) : DataMem := fun w =>
  if w = wordIndex op.addr then strobedWord (mem w) op.writeData op.wstrb else mem w

/-- The decoder produces the sizes 0, 1 and 2, and EX lets only aligned addresses through. -/
def Aligned (op : LsuOp) : Prop :=
  op.memSize ≠ 3#2 ∧ op.addr.toNat % (widthOf op.memSize).bytes = 0

instance (op : LsuOp) : Decidable op.Aligned := inferInstanceAs (Decidable (_ ∧ _))

/-- The operation on a byte memory. -/
def byteNext (m : ByteMem) (op : LsuOp) : ByteMem :=
  if op.writeEn then m.store (widthOf op.memSize) op.addr op.storeData else m

end LsuOp

/-- The loaded values of a sequence of operations on the word memory; a store loads nothing. -/
def lsuLoads : DataMem → List LsuOp → List (Option Word)
  | _, [] => []
  | mem, op :: ops =>
    (if op.writeEn then none else some (op.loadData mem)) :: lsuLoads (op.next mem) ops

/-- The loaded values of the same sequence on a byte memory. -/
def byteLoads : ByteMem → List LsuOp → List (Option Word)
  | _, [] => []
  | m, op :: ops =>
    (if op.writeEn then none
      else some (m.load (widthOf op.memSize) op.memUnsigned op.addr)) ::
      byteLoads (op.byteNext m) ops

/-! ## Words as bytes -/

/-- The bytes a word memory stands for. -/
def DataMem.bytes (mem : DataMem) : ByteMem := fun x =>
  (mem (wordIndex x)).extractLsb' (8 * (x.extractLsb' 0 2).toNat) 8

/-- The byte lane of an address within its word. -/
theorem toNat_lane (x : Word) : (x.extractLsb' 0 2).toNat = x.toNat % 4 := by
  simp [BitVec.extractLsb'_toNat]

theorem wordIndex_toNat (x : Word) : (wordIndex x).toNat = x.toNat / 4 := by
  have hx := x.isLt
  rw [wordIndex, BitVec.extractLsb'_toNat, Nat.shiftRight_eq_div_pow]
  omega

theorem wordIndex_eq_iff (x y : Word) :
    wordIndex x = wordIndex y ↔ x.toNat / 4 = y.toNat / 4 := by
  rw [← BitVec.toNat_inj, wordIndex_toNat, wordIndex_toNat]

/-- The bytes of an aligned access share its word and follow its lane. -/
theorem touches_iff {width : Width} {addr x : Word} (hal : addr.toNat % width.bytes = 0) :
    Touches width addr x ↔
      wordIndex x = wordIndex addr ∧ addr.toNat % 4 ≤ x.toNat % 4 ∧
        x.toNat % 4 < addr.toNat % 4 + width.bytes := by
  have hx := x.isLt
  have ha := addr.isLt
  rw [Touches, wordIndex_eq_iff, BitVec.toNat_sub]
  cases width <;> simp only [Width.bytes] at hal ⊢ <;> omega

/-- The distance of such a byte from the start of the access is that of the lanes. -/
theorem touches_offset {width : Width} {addr x : Word} (hal : addr.toNat % width.bytes = 0)
    (h : Touches width addr x) : (x - addr).toNat = x.toNat % 4 - addr.toNat % 4 := by
  have hx := x.isLt
  have ha := addr.isLt
  obtain ⟨hw, hlo, hhi⟩ := (touches_iff hal).mp h
  rw [wordIndex_eq_iff] at hw
  rw [BitVec.toNat_sub]
  omega

/-! ## Stores

The strobes say which lanes of the word change and the shifted data what goes into them. Both
are looked at lane by lane, so that a byte of the new word is either one of the store or the one
that was there. -/

/-- One byte of the strobe mask and of its complement. -/
theorem strobeMask_lane : ∀ (wstrb : BitVec 4) (lane : BitVec 2),
    (strobeMask wstrb).extractLsb' (8 * lane.toNat) 8 =
        (if wstrb.getLsbD lane.toNat then 0xff#8 else 0x00#8) ∧
      (~~~strobeMask wstrb).extractLsb' (8 * lane.toNat) 8 =
        (if wstrb.getLsbD lane.toNat then 0x00#8 else 0xff#8) := by
  decide

/-- One byte of a strobed write. -/
theorem strobedWord_lane (old new : Word) (wstrb : BitVec 4) (lane : BitVec 2) :
    (strobedWord old new wstrb).extractLsb' (8 * lane.toNat) 8 =
      if wstrb.getLsbD lane.toNat then new.extractLsb' (8 * lane.toNat) 8
      else old.extractLsb' (8 * lane.toNat) 8 := by
  obtain ⟨hmask, hnot⟩ := strobeMask_lane wstrb lane
  have hones : ∀ b : BitVec 8, b &&& 0xff#8 = b := fun b => BitVec.and_allOnes
  rw [strobedWord, BitVec.extractLsb'_or, BitVec.extractLsb'_and, BitVec.extractLsb'_and, hmask,
    hnot]
  split_ifs
  · rw [hones, BitVec.and_zero, BitVec.zero_or]
  · rw [hones, BitVec.and_zero, BitVec.or_zero]

/-- The strobes of an aligned store cover its bytes. -/
theorem lsuWstrb_iff : ∀ size lo lane : BitVec 2, size ≠ 3#2 →
    lo.toNat % (widthOf size).bytes = 0 →
    ((lsuWstrb size lo true).getLsbD lane.toNat = true ↔
      lo.toNat ≤ lane.toNat ∧ lane.toNat < lo.toNat + (widthOf size).bytes) := by
  decide

/-- A byte of a word shifted left by whole bytes. -/
theorem extract_shiftLeft (x : Word) (s j : ℕ) (h : s + j + 8 ≤ 32) :
    (x <<< s).extractLsb' (s + j) 8 = x.extractLsb' j 8 := by
  ext k hk
  rw [BitVec.getElem_extractLsb', BitVec.getElem_extractLsb', BitVec.getLsbD_shiftLeft]
  simp [show s + j + k < 32 by omega, show ¬ s + j + k < s by omega,
    show s + j + k - s = j + k by omega]

theorem size_cases : ∀ size : BitVec 2, size ≠ 3#2 → size = 0#2 ∨ size = 1#2 ∨ size = 2#2 := by
  decide

/-- The shifted and replicated data shows the stored bytes in their lanes. -/
theorem lsuWriteData_lane (size lo lane : BitVec 2) (data : Word) (hsize : size ≠ 3#2)
    (hal : lo.toNat % (widthOf size).bytes = 0) (hlo : lo.toNat ≤ lane.toNat)
    (hhi : lane.toNat < lo.toNat + (widthOf size).bytes) :
    (lsuWriteData size lo true data).extractLsb' (8 * lane.toNat) 8 =
      data.extractLsb' (8 * (lane.toNat - lo.toNat)) 8 := by
  have hlane := lane.isLt
  obtain ⟨j, hj⟩ : ∃ j, lane.toNat = lo.toNat + j := ⟨_, (Nat.add_sub_of_le hlo).symm⟩
  rw [hj, Nat.add_lt_add_iff_left] at hhi
  rw [hj, Nat.add_sub_cancel_left, Nat.mul_add]
  rcases size_cases size hsize with rfl | rfl | rfl
  · -- a byte: the lowest of its four copies is moved to the lane
    change j < 1 at hhi
    obtain rfl : j = 0 := by omega
    refine (extract_shiftLeft _ _ _ (by omega)).trans ?_
    rw [BitVec.extractLsb'_append_eq_of_add_le (by decide)]
    exact BitVec.extractLsb'_extractLsb'_of_le (by decide)
  · -- a half: the lower of its two copies
    change j < 2 at hhi
    have hshift : ∀ lo : BitVec 2, lo.toNat % 2 = 0 →
        16 * (lo.extractLsb' 1 1).toNat = 8 * lo.toNat := by decide
    have hdata : lsuWriteData 1#2 lo true data =
        (data.extractLsb' 0 16 ++ data.extractLsb' 0 16) <<< (8 * lo.toNat) := by
      rw [← hshift lo hal]
      rfl
    rw [hdata]
    refine (extract_shiftLeft _ _ _ (by omega)).trans ?_
    rw [BitVec.extractLsb'_append_eq_of_add_le (by omega)]
    exact BitVec.extractLsb'_extractLsb'_of_le (by omega)
  · -- a word fills all lanes
    change lo.toNat % 4 = 0 at hal
    obtain h0 : lo.toNat = 0 := by omega
    rw [h0, Nat.mul_zero, Nat.zero_add]
    rfl

/-- With `write_en` low no strobe is set and the memory stays as it is. -/
theorem LsuOp.next_of_not_writeEn {op : LsuOp} (hw : op.writeEn = false) (mem : DataMem) :
    op.next mem = mem := by
  funext w
  have hstrb : op.wstrb = 0#4 := by simp [wstrb, lsuWstrb, hw]
  have hkeep : ∀ old new : Word, strobedWord old new 0#4 = old := by
    intro old new
    have hmask : strobeMask 0#4 = 0#32 := rfl
    rw [strobedWord, hmask, BitVec.and_zero, BitVec.or_zero]
    exact BitVec.and_allOnes
  rw [next, hstrb, hkeep, ite_self]

/-- **A store of the unit is the store of the ISA** on the bytes of the memory. -/
theorem LsuOp.bytes_next {op : LsuOp} (hal : op.Aligned) (mem : DataMem) :
    (op.next mem).bytes = op.byteNext mem.bytes := by
  obtain ⟨hsize, hal⟩ := hal
  cases hw : op.writeEn with
  | false =>
    rw [next_of_not_writeEn hw, byteNext, hw]
    rfl
  | true =>
    have hlo : op.addrLo.toNat = op.addr.toNat % 4 := toNat_lane op.addr
    have hlow : op.addrLo.toNat % (widthOf op.memSize).bytes = 0 :=
      (low_mod_bytes _ op.addr).trans hal
    funext x
    have hlane := toNat_lane x
    have hstrb := lsuWstrb_iff op.memSize op.addrLo (x.extractLsb' 0 2) hsize hlow
    rw [hlane, hlo] at hstrb
    simp only [byteNext, hw, if_true, ByteMem.store, DataMem.bytes, next]
    by_cases hword : wordIndex x = wordIndex op.addr
    · rw [if_pos hword, strobedWord_lane, wstrb, hw, hlane]
      by_cases htouch : Touches (widthOf op.memSize) op.addr x
      · -- a byte of the access: its strobe is set and its lane carries the stored byte
        obtain ⟨-, hge, hlt⟩ := (touches_iff hal).mp htouch
        have hdata := lsuWriteData_lane op.memSize op.addrLo (x.extractLsb' 0 2) op.storeData
          hsize hlow (by rw [hlane, hlo]; exact hge) (by rw [hlane, hlo]; exact hlt)
        rw [hlane, hlo] at hdata
        rw [if_pos htouch, if_pos (hstrb.mpr ⟨hge, hlt⟩), touches_offset hal htouch, writeData, hw]
        exact hdata
      · -- another byte of the same word: not strobed
        have hnot : ¬(op.addr.toNat % 4 ≤ x.toNat % 4 ∧
            x.toNat % 4 < op.addr.toNat % 4 + (widthOf op.memSize).bytes) :=
          fun h => htouch ((touches_iff hal).mpr ⟨hword, h⟩)
        rw [if_neg htouch, if_neg (mt hstrb.mp hnot)]
    · have htouch : ¬Touches (widthOf op.memSize) op.addr x :=
        fun h => hword ((touches_iff hal).mp h).1
      rw [if_neg hword, if_neg htouch]

/-! ## Loads

A load takes a field out of its word and extends it. The field of an aligned access is read off
the bytes of the memory in the order of their addresses, which is where the memory is little
endian. -/

/-- The byte `k` places into an aligned access. -/
theorem bytes_of_access {width : Width} {addr : Word} (hal : addr.toNat % width.bytes = 0)
    (mem : DataMem) {k : ℕ} (hk : k < width.bytes) :
    mem.bytes (addr + BitVec.ofNat 32 k) =
      (mem (wordIndex addr)).extractLsb' (8 * (addr.toNat % 4 + k)) 8 := by
  have ha := addr.isLt
  -- an aligned access does not cross a word boundary
  have hsum : (addr + BitVec.ofNat 32 k).toNat = addr.toNat + k ∧
      addr.toNat % 4 + k < 4 := by
    rw [BitVec.toNat_add, BitVec.toNat_ofNat]
    cases width <;> simp only [Width.bytes] at hal hk <;> omega
  obtain ⟨htoNat, hlane⟩ := hsum
  have hword : wordIndex (addr + BitVec.ofNat 32 k) = wordIndex addr := by
    rw [wordIndex_eq_iff, htoNat]
    omega
  rw [DataMem.bytes, hword, toNat_lane, htoNat]
  congr 2
  omega

/-- Extraction of a byte. -/
theorem lsuLoadData_byte (memUnsigned : Bool) (lo : BitVec 2) (d : Word) :
    lsuLoadData 0#2 memUnsigned lo d =
      lsuExtend memUnsigned (d.extractLsb' (8 * lo.toNat) 8) := by
  have hlo : ∀ lo : BitVec 2, lo = 0#2 ∨ lo = 1#2 ∨ lo = 2#2 ∨ lo = 3#2 := by decide
  rcases hlo lo with rfl | rfl | rfl | rfl <;> rfl

/-- Extraction of an aligned half. -/
theorem lsuLoadData_half (memUnsigned : Bool) (lo : BitVec 2) (d : Word)
    (hal : lo.toNat % 2 = 0) :
    lsuLoadData 1#2 memUnsigned lo d =
      lsuExtend memUnsigned (d.extractLsb' (8 * lo.toNat) 16) := by
  have hlo : ∀ lo : BitVec 2, lo.toNat % 2 = 0 → lo = 0#2 ∨ lo = 2#2 := by decide
  rcases hlo lo hal with rfl | rfl <;> rfl

/-- The field of an aligned access is a field of its memory word. -/
theorem read_of_access {width : Width} {addr : Word} (hal : addr.toNat % width.bytes = 0)
    (mem : DataMem) :
    mem.bytes.read addr width =
      (mem (wordIndex addr)).extractLsb' (8 * (addr.toNat % 4)) (8 * width.bytes) := by
  have hbyte : ∀ k < width.bytes, mem.bytes (addr + BitVec.ofNat 32 k) = _ :=
    fun k hk => bytes_of_access hal mem hk
  have h0 : mem.bytes addr = (mem (wordIndex addr)).extractLsb' (8 * (addr.toNat % 4)) 8 := by
    have h := hbyte 0 (by cases width <;> decide)
    rwa [BitVec.add_zero, Nat.add_zero] at h
  cases width with
  | byte => exact h0
  | half =>
    have h1 := hbyte 1 (by decide)
    rw [ByteMem.read, h0, h1]
    exact BitVec.extractLsb'_append_extractLsb'_eq_extractLsb' (by omega)
  | word =>
    have h1 := hbyte 1 (by decide)
    have h2 := hbyte 2 (by decide)
    have h3 := hbyte 3 (by decide)
    rw [ByteMem.read, h0, h1, h2, h3,
      BitVec.extractLsb'_append_extractLsb'_eq_extractLsb' (by omega),
      BitVec.extractLsb'_append_extractLsb'_eq_extractLsb' (by omega)]
    exact BitVec.extractLsb'_append_extractLsb'_eq_extractLsb' (by omega)

/-- Load extraction returns the field of the access, extended. -/
theorem lsuLoadData_eq {memSize : BitVec 2} {addr : Word} (hsize : memSize ≠ 3#2)
    (hal : addr.toNat % (widthOf memSize).bytes = 0) (memUnsigned : Bool) (mem : DataMem) :
    lsuLoadData memSize memUnsigned (addr.extractLsb' 0 2) (mem (wordIndex addr)) =
      mem.bytes.load (widthOf memSize) memUnsigned addr := by
  have hlo := toNat_lane addr
  have hread := read_of_access hal mem
  rw [← hlo] at hread
  rw [ByteMem.load, hread]
  rcases size_cases memSize hsize with rfl | rfl | rfl
  · exact lsuLoadData_byte memUnsigned _ _
  · exact lsuLoadData_half memUnsigned _ _ ((low_mod_bytes .half addr).trans hal)
  · -- a word has nothing to extend
    have h0 : (addr.extractLsb' 0 2).toNat = 0 := by
      change addr.toNat % 4 = 0 at hal
      rw [hlo, hal]
    rw [h0]
    change mem (wordIndex addr) =
      if memUnsigned then ((mem (wordIndex addr)).extractLsb' 0 32).setWidth 32
      else ((mem (wordIndex addr)).extractLsb' 0 32).signExtend 32
    rw [BitVec.extractLsb'_eq_self, BitVec.setWidth_eq, BitVec.signExtend_eq, ite_self]

/-- **A load of the unit is the load of the ISA** on the bytes of the memory. -/
theorem LsuOp.loadData_eq {op : LsuOp} (hal : op.Aligned) (mem : DataMem) :
    op.loadData mem = mem.bytes.load (widthOf op.memSize) op.memUnsigned op.addr :=
  lsuLoadData_eq hal.1 hal.2 op.memUnsigned mem

/-! ## Sequences of operations -/

/-- The loads of a sequence agree. -/
theorem lsuLoads_eq (ops : List LsuOp) (hal : ∀ op ∈ ops, op.Aligned) (mem : DataMem) :
    lsuLoads mem ops = byteLoads mem.bytes ops := by
  induction ops generalizing mem with
  | nil => rfl
  | cons op ops ih =>
    obtain ⟨hop, hops⟩ := List.forall_mem_cons.mp hal
    rw [lsuLoads, byteLoads, LsuOp.loadData_eq hop, ih hops, LsuOp.bytes_next hop]

/-- The memories after a sequence agree. -/
theorem bytes_foldl_next (ops : List LsuOp) (hal : ∀ op ∈ ops, op.Aligned) (mem : DataMem) :
    (ops.foldl LsuOp.next mem).bytes = ops.foldl LsuOp.byteNext mem.bytes := by
  induction ops generalizing mem with
  | nil => rfl
  | cons op ops ih =>
    obtain ⟨hop, hops⟩ := List.forall_mem_cons.mp hal
    rw [List.foldl_cons, List.foldl_cons, ih hops, LsuOp.bytes_next hop]

/-- **The load/store unit with a strobed word memory refines a little-endian byte memory**:
the loads of every sequence agree, the contents agree after each operation, no byte outside
an access changes, and nothing at all changes while `write_en` is low. -/
theorem lsu_refines_byte_memory (ops : List LsuOp) (hal : ∀ op ∈ ops, op.Aligned)
    (mem : DataMem) :
    lsuLoads mem ops = byteLoads mem.bytes ops ∧
      (∀ k, ((ops.take k).foldl LsuOp.next mem).bytes =
        (ops.take k).foldl LsuOp.byteNext mem.bytes) ∧
      ∀ op ∈ ops, ∀ mem : DataMem,
        (∀ x, ¬Touches (widthOf op.memSize) op.addr x → (op.next mem).bytes x = mem.bytes x) ∧
        (op.writeEn = false → op.wstrb = 0#4 ∧ op.next mem = mem) := by
  refine ⟨lsuLoads_eq ops hal mem, fun k => ?_, fun op hop mem => ⟨fun x hx => ?_, fun hw => ?_⟩⟩
  · exact bytes_foldl_next _ (fun op hop => hal op (List.mem_of_mem_take hop)) mem
  · rw [LsuOp.bytes_next (hal op hop), LsuOp.byteNext]
    split_ifs
    · exact if_neg hx
    · rfl
  · exact ⟨by simp [LsuOp.wstrb, lsuWstrb, hw], LsuOp.next_of_not_writeEn hw mem⟩

/-- `SH` to address 6, then `LBU`, `LB` and `LW` around it. -/
def halfStoreOps : List LsuOp :=
  [⟨1#2, false, 6#32, true, 0x1234cd80#32⟩, ⟨0#2, true, 7#32, false, 0#32⟩,
    ⟨0#2, false, 6#32, false, 0#32⟩, ⟨2#2, false, 4#32, false, 0#32⟩]

theorem lsu_refines_byte_memory_half :
    lsuLoads (fun _ => 0x55555555#32) halfStoreOps =
      [none, some 0xcd#32, some 0xffffff80#32, some 0xcd805555#32] :=
  (lsu_refines_byte_memory halfStoreOps (by decide) fun _ => 0x55555555#32).1.trans (by decide)

/-! ## The unit in the core

EX lets only aligned accesses of the three sizes through, and `DataSafe` keeps this for as long
as the access is in MEM. -/

/-- The operation that MEM drives `u_lsu` with. -/
def memLsuOp (p : Pipe) : LsuOp where
  memSize := p.exMem.memSize
  memUnsigned := p.exMem.memUnsigned
  addr := p.exMem.aluResult
  writeEn := dmemWriteEn p
  storeData := p.exMem.storeData

/-- The access on the port acts on the memory as the operation of the unit. -/
theorem access_memLsuOp {p : Pipe} {a : Access} (ha : portAccess p = some a) (mem : DataMem) :
    mem.access a = (memLsuOp p).next mem := by
  have hcond : (dmemReadEn p || dmemWriteEn p) = true := by
    by_contra h
    rw [portAccess, if_neg h] at ha
    cases ha
  rw [portAccess, if_pos hcond] at ha
  cases ha
  cases hw : dmemWriteEn p with
  | true =>
    rw [DataMem.access, if_pos rfl]
    rfl
  | false =>
    rw [LsuOp.next_of_not_writeEn (show (memLsuOp p).writeEn = false from hw)]
    rfl

/-- What has passed the checks of EX is an aligned operation. -/
theorem DataSafe.lsuAligned {c : Config} {p : Pipe} (h : DataSafe c p.exMem) :
    (memLsuOp p).Aligned :=
  ⟨h.size, (misaligned_eq_false _ h.size _).mp h.aligned⟩

/-- **In the core every access is an ISA access to the bytes of the data memory.** -/
theorem port_access_bytes {c : Config} {t : Clocked.Recorded Core DataLog}
    (ht : (dataSystem c).Reachable t) {a : Access} (ha : portAccess t.sys.pipe = some a)
    (mem : DataMem) :
    (mem.access a).bytes = (memLsuOp t.sys.pipe).byteNext mem.bytes ∧
      memLoadData t.sys.pipe (mem (wordIndex (dmemAddr t.sys.pipe))) =
        mem.bytes.load (widthOf t.sys.pipe.exMem.memSize) t.sys.pipe.exMem.memUnsigned
          (dmemAddr t.sys.pipe) := by
  have hal := ((dataInv_of_reachable ht).safe (by rw [ha]; rfl)).lsuAligned
  refine ⟨?_, LsuOp.loadData_eq hal mem⟩
  rw [access_memLsuOp ha, LsuOp.bytes_next hal]

end RiscvV2
