import Mathlib.Data.BitVec

/-!
# Fields of a word by shifts and masks

Code without a type for bit fields cuts a field out of a word with a shift and a mask. Here
this is read as an operation on bit vectors of the field's own width, so that what is known
about extraction and extension applies. A word that is known to fit into a field is the
extension of that field.

Encoders that are written in C are the intended use. There an argument is a word, a field is
masked and shifted into place, and negative offsets rely on two's complement. The bounds that
make such an encoder right, unsigned fields for register numbers and signed ones for offsets,
are hypotheses about the word, and each of them gives back a narrow vector from which the word
is obtained by zero or sign extension. After that no arithmetic is left.
-/

namespace BitFields

variable {n w : ℕ}

/-- The word with its low `w` bits set. -/
def lowMask (n w : ℕ) : BitVec n := (BitVec.allOnes w).setWidth n

/-- The word is an unsigned number of `w` bits. -/
def FitsUnsigned (w : ℕ) (x : BitVec n) : Prop := x.toNat < 2 ^ w

/-- The word is a signed number of `w` bits, in two's complement. -/
def FitsSigned (w : ℕ) (x : BitVec n) : Prop := -2 ^ (w - 1) ≤ x.toInt ∧ x.toInt < 2 ^ (w - 1)

instance (x : BitVec n) : Decidable (FitsUnsigned w x) := inferInstanceAs (Decidable (_ < _))

instance (x : BitVec n) : Decidable (FitsSigned w x) := inferInstanceAs (Decidable (_ ∧ _))

/-! ## Cutting fields out -/

/-- A mask keeps the low bits. -/
theorem and_lowMask (x : BitVec n) : x &&& lowMask n w = (x.setWidth w).setWidth n := by
  ext k hk
  simp only [lowMask, BitVec.getElem_and, BitVec.getElem_setWidth, BitVec.getLsbD_setWidth,
    BitVec.getLsbD_allOnes, BitVec.getLsbD_eq_getElem hk]
  exact Bool.and_comm _ _

/-- A shift and a mask cut a field out. -/
theorem ushiftRight_and_lowMask (x : BitVec n) (s : ℕ) :
    x >>> s &&& lowMask n w = (x.extractLsb' s w).setWidth n := by
  rw [and_lowMask, BitVec.setWidth_ushiftRight_eq_extractLsb]

/-- A sign-extended field is cut back to itself. -/
theorem setWidth_signExtend (hw : w ≤ n) (y : BitVec w) : (y.signExtend n).setWidth w = y := by
  ext k hk
  simp [BitVec.getElem_signExtend, hk, Nat.lt_of_lt_of_le hk hw]

theorem signExtend_and_lowMask (hw : w ≤ n) (y : BitVec w) :
    y.signExtend n &&& lowMask n w = y.setWidth n := by
  rw [and_lowMask, setWidth_signExtend hw]

/-- A field above zeros is the shifted field. -/
theorem append_zeros {m : ℕ} (y : BitVec m) : y ++ 0#w = y.setWidth (m + w) <<< w := by
  rw [← BitVec.setWidth_eq (y ++ 0#w), BitVec.setWidth_append_eq_shiftLeft_setWidth_or,
    BitVec.setWidth_zero, BitVec.or_zero]

theorem setWidth_eq_zero_iff (hw : w ≤ n) {y : BitVec w} : y.setWidth n = 0#n ↔ y = 0#w := by
  constructor
  · intro h
    have hback : (y.setWidth n).setWidth w = y := by
      rw [BitVec.setWidth_setWidth_of_le y hw, BitVec.setWidth_eq]
    rw [← hback, h, BitVec.setWidth_zero]
  · rintro rfl
    exact BitVec.setWidth_zero n w

/-- A single bit, tested with a mask. -/
theorem and_twoPow_ne_zero {x : BitVec n} {k : ℕ} :
    x &&& BitVec.twoPow n k ≠ 0#n ↔ x.getLsbD k = true := by
  rw [BitVec.and_twoPow]
  split
  case isTrue hk =>
    have hkn : k < n := BitVec.lt_of_getLsbD hk
    have hne : BitVec.twoPow n k ≠ 0#n := by
      intro h
      have htoNat := congrArg BitVec.toNat h
      rw [BitVec.toNat_twoPow_of_lt hkn, BitVec.toNat_ofNat, Nat.zero_mod] at htoNat
      exact absurd htoNat (Nat.two_pow_pos k).ne'
    simp [hk, hne]
  case isFalse hk => simp [hk]

/-! ## Words that fit into a field

From a bound on the number to a vector of the width of the field. -/

theorem FitsUnsigned.exists_setWidth {x : BitVec n} (h : FitsUnsigned w x) :
    ∃ y : BitVec w, y.setWidth n = x := by
  refine ⟨x.setWidth w, BitVec.eq_of_toNat_eq ?_⟩
  rw [BitVec.toNat_setWidth, BitVec.toNat_setWidth, Nat.mod_eq_of_lt h,
    Nat.mod_eq_of_lt x.isLt]

theorem FitsSigned.exists_signExtend {x : BitVec n} (hw : 0 < w) (hn : w ≤ n)
    (h : FitsSigned w x) : ∃ y : BitVec w, y.signExtend n = x := by
  obtain ⟨hlo, hhi⟩ := h
  have hpow : (2 : ℤ) ^ w = 2 * 2 ^ (w - 1) := by
    rw [← pow_succ', Nat.sub_add_cancel hw]
  refine ⟨x.setWidth w, BitVec.eq_of_toInt_eq ?_⟩
  have hbmod : x.toInt.bmod (2 ^ w) = x.toInt := by
    apply Int.bmod_eq_of_le_mul_two
    · push_cast
      omega
    · push_cast
      omega
  have hdvd : 2 ^ w ∣ 2 ^ n := pow_dvd_pow 2 hn
  rw [BitVec.toInt_signExtend_of_le hn, BitVec.toInt_setWidth,
    ← Int.bmod_bmod_of_dvd hdvd, ← BitVec.toInt_eq_toNat_bmod, hbmod]

/-- The lowest bit of a word tells whether it is even. -/
theorem getLsbD_zero_of_even {x : BitVec (w + 1)} (h : x.toInt % 2 = 0) :
    x.getLsbD 0 = false := by
  have hmod : x.toNat % 2 = 0 := by
    rw [BitVec.toInt_eq_toNat_cond] at h
    have hpow : 2 ^ (w + 1) = 2 * 2 ^ w := Nat.pow_succ'
    split_ifs at h
    · omega
    · push_cast at h
      omega
  rw [BitVec.getLsbD, Nat.testBit_zero, hmod]
  rfl

/-- An even word of a signed field: all but the lowest bit of the field count. -/
theorem FitsSigned.exists_signExtend_even {x : BitVec n} (hn : w + 1 ≤ n)
    (h : FitsSigned (w + 1) x) (heven : x.toInt % 2 = 0) :
    ∃ y : BitVec w, (y ++ 0#1).signExtend n = x := by
  obtain ⟨y, rfl⟩ := h.exists_signExtend (Nat.succ_pos w) hn
  rw [BitVec.toInt_signExtend_of_le hn] at heven
  have hzero := getLsbD_zero_of_even heven
  refine ⟨y.extractLsb' 1 w, congrArg (BitVec.signExtend n) ?_⟩
  apply BitVec.eq_of_getLsbD_eq
  intro k hk
  rw [BitVec.getLsbD_append]
  rcases k with _ | k
  · rw [hzero]
    rfl
  · have hkw : k < w := Nat.lt_of_succ_lt_succ hk
    simp [hkw, Nat.add_comm]

/-! ## Upper part and signed lower part

A constant is often built from its upper part and a signed lower part. Where the lower part is
negative, the upper part is one more than the upper bits of the constant. -/

/-- Sign extension by a comparison and a subtraction. -/
theorem signExtend_eq_sub {y : BitVec w} (hw : w < n) :
    y.signExtend n = if y.msb then y.setWidth n - BitVec.twoPow n w else y.setWidth n := by
  split
  case isTrue hmsb =>
    have hpow : 2 ^ w < 2 ^ n := Nat.pow_lt_pow_right (by decide) hw
    have hy : y.toNat < 2 ^ n := lt_trans y.isLt hpow
    apply BitVec.eq_of_toNat_eq
    rw [BitVec.toNat_signExtend, BitVec.toNat_sub, BitVec.toNat_twoPow_of_lt hw,
      BitVec.toNat_setWidth, Nat.mod_eq_of_lt hy, if_pos hmsb, Nat.add_comm,
      Nat.mod_eq_of_lt (by have := y.isLt; omega)]
  case isFalse hmsb => exact BitVec.signExtend_eq_setWidth_of_msb_false (by simpa using hmsb)

section split

variable {m : ℕ} (x : BitVec (m + w))

theorem ushiftRight_eq_setWidth : x >>> w = (x.extractLsb' w m).setWidth (m + w) := by
  have hlt : x.toNat / 2 ^ w < 2 ^ m := by
    rw [Nat.div_lt_iff_lt_mul (Nat.two_pow_pos w), ← Nat.pow_add]
    exact x.isLt
  have hle : 2 ^ m ≤ 2 ^ (m + w) := Nat.pow_le_pow_right (by decide) (Nat.le_add_right m w)
  apply BitVec.eq_of_toNat_eq
  rw [BitVec.toNat_ushiftRight, BitVec.toNat_setWidth, BitVec.extractLsb'_toNat,
    Nat.shiftRight_eq_div_pow, Nat.mod_eq_of_lt hlt, Nat.mod_eq_of_lt (lt_of_lt_of_le hlt hle)]

/-- Without its signed lower part a word ends in zeros. -/
theorem sub_signExtend_low :
    (x - (x.setWidth w).signExtend (m + w)).extractLsb' w m ++ 0#w =
      x - (x.setWidth w).signExtend (m + w) := by
  have hw : w ≤ m + w := Nat.le_add_left w m
  obtain ⟨u, hu⟩ : ∃ u, u = x - (x.setWidth w).signExtend (m + w) := ⟨_, rfl⟩
  have hx : u + (x.setWidth w).signExtend (m + w) = x := by rw [hu, BitVec.sub_add_cancel]
  have hlow : u.setWidth w = 0#w := by
    have h := congrArg (BitVec.setWidth w) hx
    rw [BitVec.setWidth_add _ _ hw, setWidth_signExtend hw] at h
    simpa using h
  rw [← hu, ← hlow, BitVec.setWidth_eq_extractLsb' hw, BitVec.extractLsb'_append_extractLsb']

end split

end BitFields
