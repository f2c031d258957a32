import Mathlib.Tactic.Ring
import Mathlib.Algebra.Order.Ring.Int
import Mathlib.Algebra.Order.BigOperators.Group.List

/-!
# Signed 64-bit accumulators

`Int64` addition wraps.
-/

namespace ZClassic

open List

def addOverflows (a b : Int64) : Bool :=
  decide (a.toInt + b.toInt < -2 ^ 63 ∨ 2 ^ 63 ≤ a.toInt + b.toInt)

def subOverflows (a b : Int64) : Bool :=
  decide (a.toInt - b.toInt < -2 ^ 63 ∨ 2 ^ 63 ≤ a.toInt - b.toInt)

theorem bmod_eq_self {x : ℤ} (h₁ : -2 ^ 63 ≤ x) (h₂ : x < 2 ^ 63) : x.bmod (2 ^ 64) = x :=
  Int.bmod_eq_of_le (by norm_num at *; omega) (by norm_num at *; omega)

variable {a b : Int64}

theorem addOverflows_eq_false :
    addOverflows a b = false ↔ -2 ^ 63 ≤ a.toInt + b.toInt ∧ a.toInt + b.toInt < 2 ^ 63 := by
  simp [addOverflows]

theorem subOverflows_eq_false :
    subOverflows a b = false ↔ -2 ^ 63 ≤ a.toInt - b.toInt ∧ a.toInt - b.toInt < 2 ^ 63 := by
  simp [subOverflows]

theorem toInt_add_of_fits (h : addOverflows a b = false) : (a + b).toInt = a.toInt + b.toInt := by
  obtain ⟨h₁, h₂⟩ := addOverflows_eq_false.mp h
  rw [Int64.toInt_add, bmod_eq_self h₁ h₂]

theorem toInt_sub_of_fits (h : subOverflows a b = false) : (a - b).toInt = a.toInt - b.toInt := by
  obtain ⟨h₁, h₂⟩ := subOverflows_eq_false.mp h
  rw [Int64.toInt_sub, bmod_eq_self h₁ h₂]

def intSum (xs : List Int64) : ℤ := (xs.map Int64.toInt).sum

@[simp]
theorem intSum_nil : intSum [] = 0 := rfl

@[simp]
theorem intSum_cons (x : Int64) (xs : List Int64) : intSum (x :: xs) = x.toInt + intSum xs :=
  sum_cons

@[simp]
theorem intSum_append (xs ys : List Int64) : intSum (xs ++ ys) = intSum xs + intSum ys := by
  simp [intSum]

theorem intSum_nonneg {xs : List Int64} (h : ∀ x ∈ xs, 0 ≤ x.toInt) : 0 ≤ intSum xs := by
  apply sum_nonneg
  intro y hy
  obtain ⟨x, hx, rfl⟩ := mem_map.mp hy
  exact h x hx

theorem toInt_foldl {α : Type*} {f : Int64 → α → Int64} {g : α → ℤ}
    (hf : ∀ v x, (f v x).toInt = (v.toInt + g x).bmod (2 ^ 64)) (v : Int64) (xs : List α) :
    (xs.foldl f v).toInt = (v.toInt + (xs.map g).sum).bmod (2 ^ 64) := by
  induction xs generalizing v with
  | nil =>
    rw [foldl_nil, map_nil, sum_nil, add_zero]
    exact (bmod_eq_self v.le_toInt v.toInt_lt).symm
  | cons x xs ih =>
    rw [foldl_cons, ih, hf, Int.bmod_add_bmod, map_cons, sum_cons, add_assoc]

theorem toInt_add_of_nonneg (ha : 0 ≤ a.toInt) (hab : 0 ≤ (a + b).toInt) :
    (a + b).toInt = a.toInt + b.toInt := by
  have ha' := a.toInt_lt
  have hb := b.le_toInt
  have hb' := b.toInt_lt
  by_cases hfits : a.toInt + b.toInt < 2 ^ 63
  · exact toInt_add_of_fits (addOverflows_eq_false.mpr ⟨by omega, hfits⟩)
  · rw [Int64.toInt_add] at hab
    have hwrap : (a.toInt + b.toInt - (2 ^ 64 : ℕ)).bmod (2 ^ 64) = a.toInt + b.toInt - 2 ^ 64 :=
      bmod_eq_self (by norm_num; omega) (by norm_num; omega)
    rw [Int.sub_bmod_right] at hwrap
    omega

structure Accum where
  val : Int64 := 0
  overflowed : Bool := false
  deriving DecidableEq, Repr

namespace Accum

def add (a : Accum) (x : Int64) : Accum where
  val := a.val + x
  overflowed := a.overflowed || addOverflows a.val x

end Accum

end ZClassic
