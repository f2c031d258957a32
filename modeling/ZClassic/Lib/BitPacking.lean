import Mathlib.Data.Nat.Bitwise

/-!
# Bits in bytes

Bits are packed eight to a byte, the first one lowest, and the last byte is filled up with zeros.
-/

namespace ZClassic

open List Function

def bitsNat : List Bool → ℕ
  | [] => 0
  | bit :: bits => bit.toNat + 2 * bitsNat bits

def packByte (bits : List Bool) : UInt8 := UInt8.ofNat (bitsNat bits)

def packBits (bits : List Bool) : List UInt8 :=
  (List.range ((bits.length + 7) / 8)).map fun i => packByte ((bits.drop (8 * i)).take 8)

def unpackByte (byte : UInt8) : List Bool := (List.range 8).map byte.toNat.testBit

def unpackBits (bytes : List UInt8) : List Bool := bytes.flatMap unpackByte

theorem bitsNat_lt (bits : List Bool) : bitsNat bits < 2 ^ bits.length := by
  induction bits with
  | nil => exact Nat.one_pos
  | cons bit bits ih =>
    have hbit := bit.toNat_lt
    rw [bitsNat, length_cons, Nat.pow_succ]
    omega

theorem testBit_bitsNat (bits : List Bool) (i : ℕ) :
    (bitsNat bits).testBit i = bits.getD i false := by
  induction bits generalizing i with
  | nil => simp [bitsNat]
  | cons bit bits ih =>
    cases i with
    | zero => cases bit <;> simp [bitsNat, Nat.add_mod]
    | succ i =>
      have hhalf : bitsNat (bit :: bits) / 2 = bitsNat bits := by
        have hbit := bit.toNat_lt
        rw [bitsNat]
        omega
      rw [Nat.testBit_succ, hhalf, ih]
      rfl

variable {bits : List Bool}

theorem unpackByte_packByte (h : bits.length ≤ 8) :
    unpackByte (packByte bits) = bits ++ replicate (8 - bits.length) false := by
  have hbyte : (packByte bits).toNat = bitsNat bits := by
    have hlt := bitsNat_lt bits
    have hpow : 2 ^ bits.length ≤ 2 ^ 8 := Nat.pow_le_pow_right (by omega) h
    exact UInt8.toNat_ofNat_of_lt' (lt_of_lt_of_le hlt hpow)
  apply ext_getElem?
  intro i
  rw [unpackByte, hbyte, getElem?_map, getElem?_append, getElem?_replicate]
  by_cases hi : i < 8
  · rw [getElem?_range hi, Option.map_some, testBit_bitsNat, getD_eq_getElem?_getD]
    by_cases hlt : i < bits.length
    · rw [if_pos hlt, getElem?_eq_getElem hlt, Option.getD_some]
    · rw [if_neg hlt, if_pos (by omega), getElem?_eq_none (by omega), Option.getD_none]
  · rw [getElem?_eq_none (by simpa using hi), if_neg (by omega), if_neg (by omega)]
    rfl

theorem packBits_eq (h : bits ≠ []) :
    packBits bits = packByte (bits.take 8) :: packBits (bits.drop 8) := by
  have hpos : 0 < bits.length := length_pos_iff.mpr h
  have hcount : (bits.length + 7) / 8 = ((bits.drop 8).length + 7) / 8 + 1 := by
    rw [length_drop]
    omega
  rw [packBits, hcount, range_succ_eq_map, map_cons, map_map, packBits]
  simp [comp_def, Nat.mul_succ, Nat.add_comm]

theorem unpackBits_packBits (bits : List Bool) :
    unpackBits (packBits bits) =
      bits ++ replicate (8 * ((bits.length + 7) / 8) - bits.length) false := by
  induction hn : bits.length using Nat.strong_induction_on generalizing bits with
  | h n ih =>
    by_cases hnil : bits = []
    · rw [← hn, hnil]
      rfl
    have hpos : 0 < bits.length := length_pos_iff.mpr hnil
    have hrest := ih (bits.drop 8).length (by rw [length_drop]; omega) (bits.drop 8) rfl
    have hfirst : unpackByte (packByte (bits.take 8)) =
        bits.take 8 ++ replicate (8 - (bits.take 8).length) false :=
      unpackByte_packByte (by rw [length_take]; omega)
    rw [packBits_eq hnil, unpackBits, flatMap_cons, ← unpackBits, hfirst, hrest,
      length_take, length_drop]
    by_cases hfull : 8 ≤ bits.length
    · -- a whole byte needs no filling
      rw [show 8 - min 8 bits.length = 0 by omega, replicate_zero, append_nil,
        ← append_assoc, take_append_drop]
      congr 2
      omega
    · rw [take_of_length_le (by omega), drop_eq_nil_of_le (by omega), nil_append,
        append_assoc, replicate_append_replicate]
      congr 2
      omega

end ZClassic
