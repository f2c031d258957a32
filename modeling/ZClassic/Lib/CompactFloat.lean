import Mathlib.Data.Nat.Log
import Mathlib.Tactic.Positivity
import Mathlib.Tactic.Ring

/-!
# Natural numbers with a short mantissa

A number is kept as a mantissa of three bytes, the highest bit of which stays clear, and a number of
bytes.
-/

namespace ZClassic

open Nat

def floatTop (n bytes : ℕ) : ℕ :=
  if bytes ≤ 3 then n * 256 ^ (3 - bytes) else n / 256 ^ (bytes - 3)

def floatValue (mantissa bytes : ℕ) : ℕ :=
  if bytes ≤ 3 then mantissa / 256 ^ (3 - bytes) else mantissa * 256 ^ (bytes - 3)

def floatBytes (n : ℕ) : ℕ := if n = 0 then 0 else (n.log2 + 1) / 8 + 1

def floatMantissa (n : ℕ) : ℕ := floatTop n (floatBytes n)

def floatTruncate (n : ℕ) : ℕ := n / 256 ^ (floatBytes n - 3) * 256 ^ (floatBytes n - 3)

theorem two_pow_eight_mul (n : ℕ) : 2 ^ (8 * n) = 256 ^ n := Nat.pow_mul 2 8 n

variable {n : ℕ}

theorem floatTop_lt_iff {bytes m : ℕ} : floatTop n bytes < m ↔ n * 256 ^ 3 < m * 256 ^ bytes := by
  unfold floatTop
  split_ifs with h
  · rw [← Nat.mul_lt_mul_right (show 0 < 256 ^ bytes by positivity), Nat.mul_assoc, ← Nat.pow_add,
      Nat.sub_add_cancel h]
  · have hsplit : 256 ^ bytes = 256 ^ (bytes - 3) * 256 ^ 3 := by
      rw [← Nat.pow_add, Nat.sub_add_cancel (by omega)]
    rw [Nat.div_lt_iff_lt_mul (by positivity), hsplit, ← Nat.mul_assoc,
      Nat.mul_lt_mul_right (by positivity)]

theorem floatTop_succ (n bytes : ℕ) : floatTop n bytes / 256 = floatTop n (bytes + 1) := by
  unfold floatTop
  split_ifs with h h' h'
  · rw [show 3 - bytes = 3 - (bytes + 1) + 1 by omega, Nat.pow_succ, ← Nat.mul_assoc,
      Nat.mul_div_cancel _ (by omega)]
  · rw [show bytes = 3 by omega]
    simp
  · omega
  · rw [Nat.div_div_eq_div_mul, ← Nat.pow_succ]
    congr 2
    omega

theorem two_mul_lt_floatBytes (h : n ≠ 0) : 2 * n < 256 ^ floatBytes n := by
  have hlog : n < 2 ^ (n.log2 + 1) := lt_log2_self
  have hbits : n.log2 + 2 ≤ 8 * floatBytes n := by
    rw [floatBytes, if_neg h]
    omega
  calc 2 * n < 2 * 2 ^ (n.log2 + 1) := by omega
    _ = 2 ^ (n.log2 + 2) := by ring
    _ ≤ 2 ^ (8 * floatBytes n) := Nat.pow_le_pow_right (by omega) hbits
    _ = 256 ^ floatBytes n := two_pow_eight_mul _

theorem floatMantissa_lt (n : ℕ) : floatMantissa n < 2 ^ 23 := by
  rw [floatMantissa, floatTop_lt_iff]
  rcases Nat.eq_zero_or_pos n with rfl | hpos
  · decide
  · have hlt := two_mul_lt_floatBytes hpos.ne'
    omega

theorem floatMantissa_lt_of_floatBytes {k : ℕ} (h : n < 256 ^ k) (hbytes : floatBytes n = k + 1) :
    floatMantissa n < 2 ^ 16 := by
  rw [floatMantissa, floatTop_lt_iff, hbytes, Nat.pow_succ]
  omega

theorem floatBytes_le {k : ℕ} (h : n < 256 ^ k) : floatBytes n ≤ k + 1 := by
  unfold floatBytes
  split_ifs with hn
  · omega
  · have hlog : n.log2 < 8 * k := (log2_lt hn).mpr (by rwa [two_pow_eight_mul])
    omega

theorem floatTruncate_le (n : ℕ) : floatTruncate n ≤ n := div_mul_le_self ..

theorem floatValue_floatMantissa (n : ℕ) :
    floatValue (floatMantissa n) (floatBytes n) = floatTruncate n := by
  unfold floatValue floatMantissa floatTop floatTruncate
  split_ifs with h
  · rw [Nat.mul_div_cancel _ (by positivity), Nat.sub_eq_zero_of_le h]
    simp
  · rfl

theorem two_pow_log2_le_floatTruncate (h : n ≠ 0) : 2 ^ n.log2 ≤ floatTruncate n := by
  have hbits : 8 * (floatBytes n - 3) ≤ n.log2 := by
    rw [floatBytes, if_neg h]
    omega
  have hsplit : 2 ^ n.log2 = 2 ^ (n.log2 - 8 * (floatBytes n - 3)) * 256 ^ (floatBytes n - 3) := by
    rw [← two_pow_eight_mul, ← Nat.pow_add, Nat.sub_add_cancel hbits]
  rw [floatTruncate, hsplit]
  apply Nat.mul_le_mul_right
  rw [Nat.le_div_iff_mul_le (by positivity), ← hsplit]
  exact log2_self_le h

theorem floatTruncate_pos (h : 0 < n) : 0 < floatTruncate n :=
  lt_of_lt_of_le (by positivity) (two_pow_log2_le_floatTruncate h.ne')

theorem log2_mono {a b : ℕ} (h : a ≤ b) : a.log2 ≤ b.log2 := by
  rw [log2_eq_log_two, log2_eq_log_two]
  exact log_mono_right h

theorem log2_floatTruncate (n : ℕ) : (floatTruncate n).log2 = n.log2 := by
  rcases Nat.eq_zero_or_pos n with rfl | hpos
  · rfl
  · apply le_antisymm (log2_mono (floatTruncate_le n))
    exact (le_log2 (floatTruncate_pos hpos).ne').mpr (two_pow_log2_le_floatTruncate hpos.ne')

theorem floatBytes_floatTruncate (n : ℕ) : floatBytes (floatTruncate n) = floatBytes n := by
  rcases Nat.eq_zero_or_pos n with rfl | hpos
  · rfl
  · rw [floatBytes, floatBytes, log2_floatTruncate, if_neg (floatTruncate_pos hpos).ne',
      if_neg hpos.ne']

theorem floatMantissa_floatTruncate (n : ℕ) :
    floatMantissa (floatTruncate n) = floatMantissa n := by
  rw [floatMantissa, floatMantissa, floatBytes_floatTruncate, floatTop, floatTop]
  split_ifs with h
  · rw [floatTruncate, Nat.sub_eq_zero_of_le h]
    simp
  · rw [floatTruncate, Nat.mul_div_cancel _ (by positivity)]

theorem floatTruncate_mono {a b : ℕ} (h : a ≤ b) : floatTruncate a ≤ floatTruncate b := by
  rcases Nat.eq_zero_or_pos a with rfl | hpos
  · exact Nat.zero_le _
  rcases (log2_mono h).eq_or_lt with heq | hlt
  · have hbytes : floatBytes a = floatBytes b := by
      rw [floatBytes, floatBytes, heq, if_neg hpos.ne', if_neg (by omega)]
    rw [floatTruncate, floatTruncate, hbytes]
    exact Nat.mul_le_mul_right _ (Nat.div_le_div_right h)
  · calc floatTruncate a ≤ a := floatTruncate_le a
      _ ≤ 2 ^ (a.log2 + 1) := Nat.lt_log2_self.le
      _ ≤ 2 ^ b.log2 := Nat.pow_le_pow_right (by omega) hlt
      _ ≤ floatTruncate b := two_pow_log2_le_floatTruncate (by omega)

/-- What is cut off is less than a unit of the last place, and the mantissa has at least 16 bits. -/
theorem floatTruncate_close (h : n ≠ 0) : 2 ^ 15 * (n - floatTruncate n) < n := by
  have hunit : 0 < 256 ^ (floatBytes n - 3) := by positivity
  have hcut : n - floatTruncate n = n % 256 ^ (floatBytes n - 3) := by
    have hdiv := div_add_mod' n (256 ^ (floatBytes n - 3))
    rw [floatTruncate]
    omega
  rw [hcut]
  rcases Nat.eq_zero_or_pos (floatBytes n - 3) with hzero | hlarge
  · rw [hzero, Nat.pow_zero, mod_one]
    omega
  · have hlt := mod_lt n hunit
    have hlog : 15 + 8 * (floatBytes n - 3) ≤ n.log2 := by
      rw [floatBytes, if_neg h] at hlarge ⊢
      omega
    calc 2 ^ 15 * (n % 256 ^ (floatBytes n - 3)) < 2 ^ 15 * 256 ^ (floatBytes n - 3) := by omega
      _ = 2 ^ (15 + 8 * (floatBytes n - 3)) := by rw [Nat.pow_add, two_pow_eight_mul]
      _ ≤ 2 ^ n.log2 := Nat.pow_le_pow_right (by omega) hlog
      _ ≤ n := log2_self_le h

theorem two_pow_le_floatTruncate {k : ℕ} (h : 2 ^ k ≤ n) : 2 ^ k ≤ floatTruncate n := by
  have hne : n ≠ 0 := (lt_of_lt_of_le (by positivity) h).ne'
  have hlog : k ≤ n.log2 := (le_log2 hne).mpr h
  exact (Nat.pow_le_pow_right (by omega) hlog).trans (two_pow_log2_le_floatTruncate hne)

end ZClassic
