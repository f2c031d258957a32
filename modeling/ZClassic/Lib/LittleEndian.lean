import Mathlib.Data.List.Basic
import Mathlib.Tactic.Ring

/-!
# Little-endian bytes

Fixed-width little-endian writers and the reader that inverts them.
-/

namespace ZClassic

open List

def leBytes : ℕ → ℕ → List UInt8
  | 0, _ => []
  | w + 1, n => UInt8.ofNat n :: leBytes w (n / 256)

def leNat : List UInt8 → ℕ
  | [] => 0
  | b :: bs => b.toNat + 256 * leNat bs

@[simp]
theorem leBytes_length (w n : ℕ) : (leBytes w n).length = w := by
  induction w generalizing n with
  | zero => rfl
  | succ w ih => rw [leBytes, length_cons, ih]

theorem leNat_leBytes (w n : ℕ) : leNat (leBytes w n) = n % 256 ^ w := by
  induction w generalizing n with
  | zero => simp [leBytes, leNat, Nat.mod_one]
  | succ w ih =>
    have hb : (UInt8.ofNat n).toNat = n % 256 := by simp
    rw [leBytes, leNat, ih, hb, pow_succ', Nat.mod_mul]

variable {w : ℕ}

theorem leNat_leBytes_of_lt {n : ℕ} (h : n < 256 ^ w) : leNat (leBytes w n) = n := by
  rw [leNat_leBytes, Nat.mod_eq_of_lt h]

theorem leBytes_leNat (bs : List UInt8) : leBytes bs.length (leNat bs) = bs := by
  induction bs with
  | nil => rfl
  | cons b bs ih =>
    have hlt : b.toNat < 256 := b.toNat_lt
    have hdiv : (b.toNat + 256 * leNat bs) / 256 = leNat bs := by omega
    have hlow : UInt8.ofNat (b.toNat + 256 * leNat bs) = b := by
      apply UInt8.toNat_inj.mp
      rw [UInt8.toNat_ofNat']
      omega
    rw [length_cons, leNat, leBytes, hdiv, ih, hlow]

theorem leNat_lt (bs : List UInt8) : leNat bs < 256 ^ bs.length := by
  have h := leNat_leBytes bs.length (leNat bs)
  rw [leBytes_leNat] at h
  rw [h]
  exact Nat.mod_lt _ (Nat.pow_pos (by decide))

def leRead (w : ℕ) (bs : List UInt8) : Option (ℕ × List UInt8) :=
  if bs.length < w then none else some (leNat (bs.take w), bs.drop w)

theorem leRead_leBytes {n : ℕ} (h : n < 256 ^ w) (rest : List UInt8) :
    leRead w (leBytes w n ++ rest) = some (n, rest) := by
  have hlen : (leBytes w n).length = w := leBytes_length w n
  rw [leRead, if_neg (by simp), take_left' hlen, drop_left' hlen, leNat_leBytes_of_lt h]

variable {bs : List UInt8}

theorem leRead_drop {i : ℕ} (h : i + w ≤ bs.length) :
    leRead w (bs.drop i) = some (leNat ((bs.drop i).take w), bs.drop (i + w)) := by
  rw [leRead, if_neg (by rw [length_drop]; omega), drop_drop]

theorem leRead_length {r : ℕ × List UInt8} (h : leRead w bs = some r) :
    bs.length = r.2.length + w := by
  unfold leRead at h
  split_ifs at h with hlt
  cases h
  rw [length_drop]
  omega

end ZClassic
