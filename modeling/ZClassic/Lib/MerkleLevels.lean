import Mathlib.Algebra.Group.Nat.Defs
import Mathlib.Data.Nat.Log
import Mathlib.Data.Set.Function

/-!
# Merkle trees by levels

A level is hashed into the next one by pairs, and an odd last node is paired with itself.
-/

namespace ZClassic

open List

def pairUp {α : Type} : List α → List (α × α)
  | [] => []
  | [a] => [(a, a)]
  | a :: b :: rest => (a, b) :: pairUp rest

def lastPairEqual {α : Type} [DecidableEq α] : List α → Bool
  | [] => false
  | [_] => false
  | [a, b] => a == b
  | _ :: _ :: rest => lastPairEqual rest

section Pairs

variable {α : Type}

theorem pairUp_length (xs : List α) : (pairUp xs).length = (xs.length + 1) / 2 := by
  induction xs using pairUp.induct with
  | case1 => simp [pairUp]
  | case2 a => simp [pairUp]
  | case3 a b rest ih =>
    simp only [pairUp, length_cons, ih]
    omega

variable {xs : List α}

theorem pairUp_eq_nil : pairUp xs = [] ↔ xs = [] := by
  rw [← length_eq_zero_iff, ← length_eq_zero_iff, pairUp_length]
  omega

theorem pairUp_get (xs : List α) (i : ℕ) :
    (pairUp xs)[i]? = xs[2 * i]?.map fun a => (a, xs[2 * i + 1]?.getD a) := by
  induction xs using pairUp.induct generalizing i with
  | case1 => simp [pairUp]
  | case2 a =>
    cases i with
    | zero => rfl
    | succ i => simp [pairUp, Nat.mul_succ]
  | case3 a b rest ih =>
    cases i with
    | zero => rfl
    | succ i =>
      change (pairUp rest)[i]? = _
      rw [ih]
      rfl

theorem mem_of_mem_pairUp {q : α × α} (hq : q ∈ pairUp xs) : q.1 ∈ xs ∧ q.2 ∈ xs := by
  induction xs using pairUp.induct with
  | case1 => exact absurd hq not_mem_nil
  | case2 a =>
    rw [pairUp, mem_singleton] at hq
    simp [hq]
  | case3 a b rest ih =>
    rw [pairUp, mem_cons] at hq
    rcases hq with rfl | hq
    · simp
    · simp [ih hq]

variable [DecidableEq α]

theorem lastPairEqual_of_cons {a b : α} {rest : List α}
    (h : lastPairEqual (a :: b :: rest) = false) : lastPairEqual rest = false := by
  cases rest with
  | nil => rfl
  | cons c rest => exact h

theorem pairUp_inj {xs ys : List α} (hxs : lastPairEqual xs = false)
    (hys : lastPairEqual ys = false) (h : pairUp xs = pairUp ys) : xs = ys := by
  induction xs using pairUp.induct generalizing ys with
  | case1 => exact (pairUp_eq_nil.mp h.symm).symm
  | case2 a =>
    match ys with
    | [] => simp [pairUp] at h
    | [c] => simpa [pairUp] using h
    | c :: d :: ys =>
      -- a doubled last pair is the only other list with these pairs
      simp only [pairUp, cons.injEq, Prod.mk.injEq] at h
      have hnil : ys = [] := pairUp_eq_nil.mp h.2.symm
      rw [hnil, lastPairEqual, ← h.1.1, ← h.1.2] at hys
      simp at hys
  | case3 a b rest ih =>
    match ys with
    | [] => simp [pairUp] at h
    | [c] =>
      simp only [pairUp, cons.injEq, Prod.mk.injEq] at h
      have hnil : rest = [] := pairUp_eq_nil.mp h.2
      rw [hnil, lastPairEqual, h.1.1, h.1.2] at hxs
      simp at hxs
    | c :: d :: ys =>
      simp only [pairUp, cons.injEq, Prod.mk.injEq] at h
      rw [h.1.1, h.1.2, ih (lastPairEqual_of_cons hxs) (lastPairEqual_of_cons hys) h.2]

end Pairs

section Levels

variable {α : Type} (hash : α × α → α)

def levelUp (xs : List α) : List α := (pairUp xs).map hash

def levelAt (xs : List α) : ℕ → List α
  | 0 => xs
  | height + 1 => levelUp hash (levelAt xs height)

def pairsBelow (xs : List α) (height : ℕ) : List (α × α) :=
  (List.range height).flatMap fun h => pairUp (levelAt hash xs h)

theorem levelUp_length (xs : List α) : (levelUp hash xs).length = (xs.length + 1) / 2 := by
  rw [levelUp, length_map, pairUp_length]

theorem levelAt_length (xs : List α) (height : ℕ) :
    (levelAt hash xs height).length = (xs.length + 2 ^ height - 1) / 2 ^ height := by
  induction height with
  | zero => simp [levelAt]
  | succ height ih =>
    have hpow : 0 < 2 ^ height := Nat.two_pow_pos height
    have hround : (xs.length + 2 ^ height - 1) / 2 ^ height + 1 =
        (xs.length + 2 ^ (height + 1) - 1) / 2 ^ height := by
      rw [← Nat.add_div_right _ hpow, Nat.pow_succ]
      congr 1
      omega
    rw [levelAt, levelUp_length, ih, hround, Nat.div_div_eq_div_mul, ← Nat.pow_succ]

theorem levelAt_levelUp (xs : List α) (height : ℕ) :
    levelAt hash (levelUp hash xs) height = levelAt hash xs (height + 1) := by
  induction height with
  | zero => rfl
  | succ height ih => exact congrArg (levelUp hash) ih

theorem levelAt_succ_get (xs : List α) (height pos : ℕ) :
    (levelAt hash xs (height + 1))[pos]? = (levelAt hash xs height)[2 * pos]?.map fun a =>
      hash (a, (levelAt hash xs height)[2 * pos + 1]?.getD a) := by
  rw [levelAt, levelUp, getElem?_map, pairUp_get, Option.map_map]
  rfl

variable {p : α × α} {xs : List α} {S : Set (α × α)}

theorem mem_pairsBelow {h height : ℕ} (hlt : h < height) (hp : p ∈ pairUp (levelAt hash xs h)) :
    p ∈ pairsBelow hash xs height :=
  mem_flatMap.mpr ⟨h, mem_range.mpr hlt, hp⟩

theorem pairsBelow_mono {height height' : ℕ} (hle : height ≤ height')
    (hp : p ∈ pairsBelow hash xs height) : p ∈ pairsBelow hash xs height' := by
  obtain ⟨h, hlt, hp⟩ := mem_flatMap.mp hp
  exact mem_pairsBelow hash ((mem_range.mp hlt).trans_le hle) hp

theorem exists_pair_of_mem_levelAt {h : ℕ} {x : α} (hx : x ∈ levelAt hash xs (h + 1)) :
    ∃ p ∈ pairsBelow hash xs (h + 1), hash p = x := by
  obtain ⟨p, hp, rfl⟩ := mem_map.mp hx
  exact ⟨p, mem_pairsBelow hash (Nat.lt_succ_self h) hp, rfl⟩

theorem map_inj_of_injOn {β : Type} {f : β → α} {S : Set β} (hinj : Set.InjOn f S) {ps qs : List β}
    (hps : ∀ p ∈ ps, p ∈ S) (hqs : ∀ q ∈ qs, q ∈ S) (h : ps.map f = qs.map f) : ps = qs := by
  induction ps generalizing qs with
  | nil => exact (map_eq_nil_iff.mp h.symm).symm
  | cons p ps ih =>
    cases qs with
    | nil => simp at h
    | cons q qs =>
      rw [forall_mem_cons] at hps hqs
      simp only [map_cons, cons.injEq] at h
      rw [hinj hps.1 hqs.1 h.1, ih hps.2 hqs.2 h.2]

variable [DecidableEq α] {xs ys : List α} {i j : ℕ}

section

variable (hinj : Set.InjOn hash S)

include hinj

theorem levelAt_descend (hS : ∀ p ∈ pairUp (levelAt hash xs i), p ∈ S)
    (hS' : ∀ p ∈ pairUp (levelAt hash ys j), p ∈ S)
    (hxs : lastPairEqual (levelAt hash xs i) = false)
    (hys : lastPairEqual (levelAt hash ys j) = false)
    (h : levelAt hash xs (i + 1) = levelAt hash ys (j + 1)) :
    levelAt hash xs i = levelAt hash ys j :=
  pairUp_inj hxs hys (map_inj_of_injOn hinj hS hS' h)

variable (hS : ∀ p ∈ pairsBelow hash xs i, p ∈ S) (hS' : ∀ p ∈ pairsBelow hash ys j, p ∈ S)
  (hxs : ∀ h < i, lastPairEqual (levelAt hash xs h) = false)
  (hys : ∀ h < j, lastPairEqual (levelAt hash ys h) = false)
  (h : levelAt hash xs i = levelAt hash ys j)

include hS hS' hxs hys h

theorem eq_levelAt_of_levelAt_eq (hij : i ≤ j) : xs = levelAt hash ys (j - i) := by
  induction i generalizing j with
  | zero => exact h
  | succ i ih =>
    obtain ⟨j, rfl⟩ : ∃ k, j = k + 1 := ⟨j - 1, by omega⟩
    rw [Nat.add_sub_add_right]
    refine ih (fun p hp => hS p (pairsBelow_mono hash (Nat.le_succ i) hp))
      (fun p hp => hS' p (pairsBelow_mono hash (Nat.le_succ j) hp)) (fun h hlt => hxs h (by omega))
      (fun h hlt => hys h (by omega)) ?_ (by omega)
    exact levelAt_descend hash hinj (fun p hp => hS p (mem_pairsBelow hash (by omega) hp))
      (fun p hp => hS' p (mem_pairsBelow hash (by omega) hp)) (hxs i (by omega)) (hys j (by omega))
      h

theorem eq_of_levelAt_eq_of_le (hij : i ≤ j) (hleaves : ∀ x ∈ xs, ∀ p ∈ S, hash p ≠ x)
    (hne : xs ≠ []) : xs = ys := by
  have hdown := eq_levelAt_of_levelAt_eq hash hinj hS hS' hxs hys h hij
  rcases Nat.eq_zero_or_pos (j - i) with hzero | hpos
  · rwa [hzero] at hdown
  · obtain ⟨k, hk⟩ : ∃ k, j - i = k + 1 := ⟨j - i - 1, by omega⟩
    obtain ⟨x, hx⟩ := exists_mem_of_ne_nil xs hne
    rw [hk] at hdown
    obtain ⟨p, hp, rfl⟩ := exists_pair_of_mem_levelAt hash (hdown ▸ hx)
    exact absurd rfl (hleaves _ hx p (hS' p (pairsBelow_mono hash (by omega) hp)))

theorem eq_of_levelAt_eq (hleaves : ∀ x ∈ xs ++ ys, ∀ p ∈ S, hash p ≠ x) (hne : xs ≠ [])
    (hne' : ys ≠ []) : xs = ys := by
  rw [forall_mem_append] at hleaves
  rcases Nat.le_total i j with hij | hji
  · exact eq_of_levelAt_eq_of_le hash hinj hS hS' hxs hys h hij hleaves.1 hne
  · exact (eq_of_levelAt_eq_of_le hash hinj hS' hS hys hxs h.symm hji hleaves.2 hne').symm

end

end Levels

end ZClassic
