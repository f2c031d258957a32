import Mathlib.Data.Nat.Bitwise
import ZClassic.Chain.Pow
import ZClassic.Lib.CompactFloat

/-!
# Compact targets

The compact form of a target (`lib/core/src/arith_uint256.c`) is a number with a short mantissa.
-/

namespace ZClassic

open UInt32 BitVec

theorem signBit_eq (c : UInt32) : (c &&& 0x00800000 != 0) = decide (2 ^ 23 ≤ c.toNat % 2 ^ 24) := by
  have hmask : (c &&& 0x00800000).toNat = (c.toNat.testBit 23).toNat * 2 ^ 23 := by
    rw [UInt32.toNat_and]
    exact Nat.and_two_pow c.toNat 23
  have hbit : c.toNat.testBit 23 = decide (2 ^ 23 ≤ c.toNat % 2 ^ 24) := by
    rw [Nat.testBit_eq_decide_div_mod_eq, decide_eq_decide]
    omega
  rw [← hbit]
  cases h : c.toNat.testBit 23 with
  | false =>
    have hzero : c &&& 0x00800000 = 0 := by
      apply UInt32.toNat_inj.mp
      rw [hmask, h]
      rfl
    rw [hzero]
    rfl
  | true =>
    have hne : c &&& 0x00800000 ≠ 0 := by
      intro hzero
      rw [hzero, h] at hmask
      simp at hmask
    simpa using hne

def compactSize (c : UInt32) : ℕ := c.toNat / 2 ^ 24

def compactMantissa (c : UInt32) : ℕ := c.toNat % 2 ^ 23

def compactWord (c : UInt32) : ℕ :=
  if compactSize c ≤ 3 then compactMantissa c / 256 ^ (3 - compactSize c) else compactMantissa c

theorem setCompact_eq (c : UInt32) :
    arithUint256SetCompact c =
      { target := BitVec.ofNat 256 (floatValue (compactMantissa c) (compactSize c))
        negative := compactWord c != 0 && decide (2 ^ 23 ≤ c.toNat % 2 ^ 24)
        overflow := compactWord c != 0 && (decide (34 < compactSize c) ||
          (decide (0xff < compactWord c) && decide (33 < compactSize c)) ||
          (decide (0xffff < compactWord c) && decide (32 < compactSize c))) } := by
  have hsize : (c >>> 24).toNat = compactSize c := by
    rw [UInt32.toNat_shiftRight]
    exact Nat.shiftRight_eq_div_pow c.toNat 24
  have hmantissa : (c &&& 0x007fffff).toNat = compactMantissa c := by
    rw [UInt32.toNat_and]
    exact Nat.and_two_pow_sub_one_eq_mod c.toNat 23
  have hword : (if compactSize c ≤ 3 then compactMantissa c >>> (8 * (3 - compactSize c))
      else compactMantissa c) = compactWord c := by
    rw [compactWord, Nat.shiftRight_eq_div_pow, two_pow_eight_mul]
  simp only [arithUint256SetCompact, hsize, hmantissa, hword, signBit_eq]
  congr 1
  unfold compactWord floatValue
  split_ifs with hsmall
  · rfl
  · apply BitVec.eq_of_toNat_eq
    rw [BitVec.toNat_shiftLeft, BitVec.toNat_ofNat, BitVec.toNat_ofNat, Nat.shiftLeft_eq,
      two_pow_eight_mul, Nat.mod_mul_mod]

theorem setCompact_toNat {c : UInt32} (h : (arithUint256SetCompact c).overflow = false) :
    (arithUint256SetCompact c).target.toNat = floatValue (compactMantissa c) (compactSize c) := by
  have hmantissa : compactMantissa c < 2 ^ 23 := Nat.mod_lt _ (by omega)
  rw [setCompact_eq] at h ⊢
  rw [BitVec.toNat_ofNat, Nat.mod_eq_of_lt]
  unfold floatValue
  split_ifs with hsmall
  · exact lt_of_le_of_lt (Nat.div_le_self ..) (hmantissa.trans (by decide))
  · simp only [compactWord, if_neg hsmall, Bool.and_eq_false_imp, bne_iff_ne, Bool.or_eq_false_iff,
      decide_eq_false_iff_not, decide_eq_true_eq] at h
    generalize compactMantissa c = m at *
    rcases Nat.eq_zero_or_pos m with rfl | hpos
    · simp
    -- the sizes that leave less than the whole mantissa
    have hcases : compactSize c ≤ 32 ∨ (compactSize c = 33 ∧ m < 2 ^ 16) ∨
        (compactSize c = 34 ∧ m < 2 ^ 8) := by
      have := h (by omega)
      omega
    rcases hcases with hle | ⟨heq, hm⟩ | ⟨heq, hm⟩
    · calc m * 256 ^ (compactSize c - 3)
          ≤ m * 256 ^ 29 := Nat.mul_le_mul_left m (Nat.pow_le_pow_right (by omega) (by omega))
        _ < 2 ^ 256 := by omega
    · rw [heq]
      omega
    · rw [heq]
      omega

theorem toNat_ofNat_u32 {n : ℕ} (h : n < 2 ^ 32) : (ofNat n).toNat = n :=
  toNat_ofNat_of_lt' h

theorem packCompact_toNat {mantissa size : ℕ} (hmantissa : mantissa < 2 ^ 24) (hsize : size < 256) :
    (UInt32.ofNat mantissa ||| UInt32.ofNat size <<< 24).toNat = mantissa + size * 2 ^ 24 := by
  have hm : (UInt32.ofNat mantissa).toNat = mantissa := toNat_ofNat_u32 (by omega)
  have hs : (UInt32.ofNat size <<< 24).toNat = size <<< 24 := by
    rw [UInt32.toNat_shiftLeft, toNat_ofNat_u32 (by omega)]
    change (size <<< 24) % 2 ^ 32 = size <<< 24
    exact Nat.mod_eq_of_lt (by rw [Nat.shiftLeft_eq]; omega)
  rw [UInt32.toNat_or, hm, hs, Nat.or_comm, ← Nat.shiftLeft_add_eq_or_of_lt hmantissa,
    Nat.shiftLeft_eq, Nat.add_comm]

theorem getCompact_toNat (a : UInt256) :
    (arithUint256GetCompact a).toNat = floatMantissa a.toNat + floatBytes a.toNat * 2 ^ 24 := by
  rcases eq_or_ne a 0 with rfl | hne
  · rfl
  have hn : a.toNat ≠ 0 := fun h => hne (eq_of_toNat_eq h)
  have hlog : a.toNat.log2 < 256 := (Nat.log2_lt hn).mpr a.isLt
  have hupper : a.toNat < 2 ^ (a.toNat.log2 + 1) := Nat.lt_log2_self
  have hlower : 2 ^ a.toNat.log2 ≤ a.toNat := Nat.log2_self_le hn
  have hbits : arithUint256Bits a = a.toNat.log2 + 1 := if_neg hne
  have hbytes : floatBytes a.toNat = (a.toNat.log2 + 1) / 8 + 1 := if_neg hn
  unfold arithUint256GetCompact floatMantissa
  rw [hbits, hbytes]
  generalize a.toNat.log2 = log at *
  generalize a.toNat = n at *
  generalize hsize : (log + 1 + 7) / 8 = size
  have hround : 2 ^ (log + 1) ≤ 256 ^ size := by
    rw [← two_pow_eight_mul]
    exact Nat.pow_le_pow_right (by omega) (by omega)
  have htop : (if size ≤ 3 then ofNat (n <<< (8 * (3 - size)))
      else ofNat (n >>> (8 * (size - 3)))) = ofNat (floatTop n size) := by
    rw [← apply_ite ofNat, floatTop, Nat.shiftLeft_eq, Nat.shiftRight_eq_div_pow,
      two_pow_eight_mul, two_pow_eight_mul]
  have hlt : floatTop n size < 2 ^ 24 := by
    rw [floatTop_lt_iff]
    omega
  have htoNat : (ofNat (floatTop n size)).toNat = floatTop n size :=
    toNat_ofNat_u32 (by omega)
  simp only [htop, signBit_eq, htoNat, Nat.mod_eq_of_lt hlt]
  -- the sign bit is set exactly if the number fills its bytes
  by_cases hfull : (log + 1) % 8 = 0
  · have hexact : 2 ^ (log + 1) = 256 ^ size := by
      rw [← two_pow_eight_mul]
      congr 1
      omega
    have hset : 2 ^ 23 ≤ floatTop n size := by
      rw [← Nat.not_lt, floatTop_lt_iff, ← hexact]
      omega
    have hshift : UInt32.ofNat (floatTop n size) >>> 8 = UInt32.ofNat (floatTop n (size + 1)) := by
      apply UInt32.toNat_inj.mp
      rw [UInt32.toNat_shiftRight, htoNat, ← floatTop_succ, toNat_ofNat_u32 (by omega)]
      exact Nat.shiftRight_eq_div_pow _ 8
    rw [decide_eq_true hset, show (log + 1) / 8 + 1 = size + 1 by omega]
    simp only [if_true, hshift]
    rw [packCompact_toNat (by rw [← floatTop_succ]; omega) (by omega)]
  · have hclear : ¬2 ^ 23 ≤ floatTop n size := by
      rw [Nat.not_le, floatTop_lt_iff]
      have : 2 * 2 ^ (log + 1) ≤ 256 ^ size := by
        rw [← two_pow_eight_mul, ← Nat.pow_succ']
        exact Nat.pow_le_pow_right (by omega) (by omega)
      omega
    rw [decide_eq_false hclear, show (log + 1) / 8 + 1 = size by omega]
    simp only [if_false, Bool.false_eq_true]
    rw [packCompact_toNat hlt (by omega)]

theorem setCompact_getCompact (a : UInt256) :
    arithUint256SetCompact (arithUint256GetCompact a) =
      { target := BitVec.ofNat 256 (floatTruncate a.toNat), negative := false,
        overflow := false } := by
  have hmantissa := floatMantissa_lt a.toNat
  have hparts := getCompact_toNat a
  have hsize : compactSize (arithUint256GetCompact a) = floatBytes a.toNat := by
    rw [compactSize, hparts]
    omega
  have hm : compactMantissa (arithUint256GetCompact a) = floatMantissa a.toNat := by
    rw [compactMantissa, hparts]
    omega
  have hsign : decide (2 ^ 23 ≤ (arithUint256GetCompact a).toNat % 2 ^ 24) = false := by
    rw [decide_eq_false_iff_not, hparts]
    omega
  have hbytes : floatBytes a.toNat ≤ 33 := floatBytes_le (k := 32) a.isLt
  have hlarge : floatBytes a.toNat = 33 → floatMantissa a.toNat < 2 ^ 16 :=
    floatMantissa_lt_of_floatBytes (k := 32) a.isLt
  have hoverflow : 32 < floatBytes a.toNat → ¬0xffff < compactWord (arithUint256GetCompact a) := by
    intro h
    have hlt := hlarge (by omega)
    rw [compactWord, hsize, hm, if_neg (by omega)]
    omega
  rw [setCompact_eq, hsize, hm, hsign, floatValue_floatMantissa]
  congr 1
  · exact Bool.and_false _
  · simp only [Bool.and_eq_false_imp, Bool.or_eq_false_iff, decide_eq_false_iff_not,
      decide_eq_true_eq]
    intro _
    omega

theorem toNat_decoded (T : UInt256) :
    (arithUint256SetCompact (arithUint256GetCompact T)).target.toNat = floatTruncate T.toNat := by
  rw [setCompact_getCompact, BitVec.toNat_ofNat]
  exact Nat.mod_eq_of_lt (lt_of_le_of_lt (floatTruncate_le _) T.isLt)

/-- Encoding rounds a target down by less than one part in `2 ^ 15`, is stable and keeps order. -/
theorem compact_decode_encode (T U : UInt256) :
    let V := arithUint256SetCompact (arithUint256GetCompact T)
    V.negative = false ∧ V.overflow = false ∧ V.target ≤ T ∧
      (T ≠ 0 → 2 ^ 15 * (T.toNat - V.target.toNat) < T.toNat) ∧
      arithUint256GetCompact V.target = arithUint256GetCompact T ∧
      (T ≤ U → V.target ≤ (arithUint256SetCompact (arithUint256GetCompact U)).target) := by
  intro V
  have hV : V.target.toNat = floatTruncate T.toNat := toNat_decoded T
  have hflags := setCompact_getCompact T
  refine ⟨congrArg CompactTarget.negative hflags, congrArg CompactTarget.overflow hflags,
    ?_, ?_, ?_, ?_⟩
  · rw [le_def, hV]
    exact floatTruncate_le _
  · intro hT
    rw [hV]
    exact floatTruncate_close fun hzero => hT (eq_of_toNat_eq hzero)
  · apply UInt32.toNat_inj.mp
    rw [getCompact_toNat, getCompact_toNat, hV, floatBytes_floatTruncate,
      floatMantissa_floatTruncate]
  · intro hTU
    rw [le_def, hV, toNat_decoded]
    exact floatTruncate_mono (le_def.mp hTU)

end ZClassic
