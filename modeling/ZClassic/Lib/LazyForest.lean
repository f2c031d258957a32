import ZClassic.Lib.PerfectForest

/-!
# Lazily merged forests

A forest in which at most two trees have one height, and between two heights that occur twice there
is one that does not occur.
-/

namespace ZClassic

open List

/-- Heights from `h` on, each at most twice, where each height that occurs twice comes after one
that does not occur. `free` says that a height was skipped since the last double one. -/
inductive Belt : ℕ → Bool → List ℕ → Prop
  | nil {h free} : Belt h free []
  | zero {h free hs} : Belt (h + 1) true hs → Belt h free hs
  | one {h free hs} : Belt (h + 1) free hs → Belt h free (h :: hs)
  | two {h hs} : Belt (h + 1) false hs → Belt h true (h :: h :: hs)

namespace Belt

variable {h : ℕ} {free : Bool} {hs : List ℕ}

theorem toFree (hb : Belt h free hs) : Belt h true hs := by
  induction hb with
  | nil => exact nil
  | zero hb _ => exact zero hb
  | one _ ih => exact one ih
  | two hb _ => exact two hb

theorem push (hb : Belt h false hs) : Belt h true (h :: hs) := by
  cases hb with
  | nil => exact one nil
  | zero hb => exact one hb
  | one hb => exact two hb

section

variable (hb : Belt h free hs)

include hb

theorem le_of_mem : ∀ x ∈ hs, h ≤ x := by
  induction hb with
  | nil => simp
  | zero _ ih => exact fun x hx => Nat.le_of_succ_le (ih x hx)
  | one _ ih =>
    rw [forall_mem_cons]
    exact ⟨le_rfl, fun x hx => Nat.le_of_succ_le (ih x hx)⟩
  | two _ ih =>
    rw [forall_mem_cons, forall_mem_cons]
    exact ⟨le_rfl, le_rfl, fun x hx => Nat.le_of_succ_le (ih x hx)⟩

theorem pairwise_le : hs.Pairwise (· ≤ ·) := by
  induction hb with
  | nil => exact .nil
  | zero _ ih => exact ih
  | one hb ih => exact .cons (fun x hx => Nat.le_of_succ_le (hb.le_of_mem x hx)) ih
  | two hb ih =>
    have hle := fun x hx => Nat.le_of_succ_le (hb.le_of_mem x hx)
    exact .cons (forall_mem_cons.mpr ⟨le_rfl, hle⟩) (.cons hle ih)

theorem count_le_two (k : ℕ) : hs.count k ≤ 2 := by
  have hnone : ∀ {h free hs}, Belt (h + 1) free hs → hs.count h = 0 := fun hb =>
    count_eq_zero.mpr fun hmem => Nat.lt_irrefl _ (hb.le_of_mem _ hmem)
  induction hb with
  | nil => simp
  | zero _ ih => exact ih
  | @one h free hs hb ih =>
    rcases eq_or_ne h k with rfl | hne
    · rw [count_cons_self, hnone hb]
      decide
    · rwa [count_cons_of_ne hne]
  | @two h hs hb ih =>
    rcases eq_or_ne h k with rfl | hne
    · rw [count_cons_self, count_cons_self, hnone hb]
    · rwa [count_cons_of_ne hne, count_cons_of_ne hne]

theorem length_le {k : ℕ} (hk : ∀ x ∈ hs, x < h + k) :
    hs.length ≤ k + free.toNat := by
  induction hb generalizing k with
  | nil => exact Nat.zero_le _
  | @zero h free hs hb ih =>
    cases k with
    | zero =>
      have hnil : hs = [] := eq_nil_iff_forall_not_mem.mpr fun x hx =>
        absurd (hk x hx) (by have := hb.le_of_mem x hx; omega)
      rw [hnil]
      exact Nat.zero_le _
    | succ k =>
      have hlen := ih (k := k) fun x hx => (hk x hx).trans_eq (by omega)
      rw [Bool.toNat_true] at hlen
      omega
  | one _ ih =>
    rw [forall_mem_cons] at hk
    obtain ⟨k, rfl⟩ : ∃ k', k = k' + 1 := ⟨k - 1, by omega⟩
    have hlen := ih (k := k) fun x hx => (hk.2 x hx).trans_eq (by omega)
    rw [length_cons]
    omega
  | two _ ih =>
    rw [forall_mem_cons, forall_mem_cons] at hk
    obtain ⟨k, rfl⟩ : ∃ k', k = k' + 1 := ⟨k - 1, by omega⟩
    have hlen := ih (k := k) fun x hx => (hk.2.2 x hx).trans_eq (by omega)
    rw [Bool.toNat_false] at hlen
    rw [length_cons, length_cons, Bool.toNat_true]
    omega

end

end Belt

section FirstPair

variable {α : Type}

def topPair : List (Mountain α) → Option (MountainPair α)
  | right :: left :: below =>
    if left.height = right.height then some ⟨[], right, left, below⟩ else none
  | _ => none

def firstPair : List (Mountain α) → Option (MountainPair α)
  | right :: left :: below =>
    if left.height = right.height then some ⟨[], right, left, below⟩
    else (firstPair (left :: below)).map fun p => { p with above := right :: p.above }
  | _ => none

def mergePair (node : α → α → α) (st : List (Mountain α)) (pair : Option (MountainPair α)) :
    List (Mountain α) :=
  pair.elim st (MountainPair.merged node)

variable {p : MountainPair α} {st : List (Mountain α)}

theorem topPair_spec (h : topPair st = some p) : p.stack = st ∧ p.left.height = p.right.height := by
  match st with
  | [] => cases h
  | [_] => cases h
  | right :: left :: below =>
    obtain ⟨heq, hp⟩ := Option.ite_none_right_eq_some.mp h
    rw [← Option.some.inj hp]
    exact ⟨rfl, heq⟩

theorem firstPair_spec (h : firstPair st = some p) :
    p.stack = st ∧ p.left.height = p.right.height := by
  induction st generalizing p with
  | nil => cases h
  | cons right st ih =>
    match st with
    | [] => cases h
    | left :: below =>
      rw [firstPair] at h
      split at h
      · next heq =>
        cases h
        exact ⟨rfl, heq⟩
      · obtain ⟨p', hp', rfl⟩ := Option.map_eq_some_iff.mp h
        obtain ⟨hstack, hheight⟩ := ih hp'
        exact ⟨congrArg (cons right) hstack, hheight⟩

theorem topPair_above (h : topPair st = some p) : p.above = [] := by
  match st with
  | [] => cases h
  | [_] => cases h
  | right :: left :: below =>
    obtain ⟨-, hp⟩ := Option.ite_none_right_eq_some.mp h
    rw [← Option.some.inj hp]

theorem firstPair_eq_topPair (h : topPair st ≠ none) : firstPair st = topPair st := by
  match st with
  | [] => exact absurd rfl h
  | [_] => exact absurd rfl h
  | right :: left :: below =>
    rw [topPair, ite_ne_right_iff] at h
    rw [topPair, firstPair, if_pos h.1, if_pos h.1]

theorem mergePair_cons {node : α → α → α} {m : Mountain α} (h : ∀ m' ∈ st, m.height < m'.height) :
    mergePair node (m :: st) (firstPair (m :: st)) = m :: mergePair node st (firstPair st) := by
  match st with
  | [] => rfl
  | left :: below =>
    rw [forall_mem_cons] at h
    rw [firstPair, if_neg h.1.ne']
    cases firstPair (left :: below) <;> rfl

theorem Belt.mergePair_firstPair (node : α → α → α) {h : ℕ}
    (hb : Belt h true (st.map Mountain.height)) :
    Belt h false ((mergePair node st (firstPair st)).map Mountain.height) := by
  -- along the belt, up to the first height that occurs twice
  generalize hhs : st.map Mountain.height = hs at hb
  generalize hfree : true = free at hb
  induction hb generalizing st with
  | nil =>
    rw [map_eq_nil_iff.mp hhs]
    exact .nil
  | zero hb ih => exact .zero (ih hhs rfl).toFree
  | one hb ih =>
    obtain ⟨m, st, rfl, rfl, hst⟩ := map_eq_cons_iff.mp hhs
    have hlt : ∀ m' ∈ st, m.height < m'.height := fun m' hm' =>
      hb.le_of_mem _ (hst ▸ mem_map_of_mem hm')
    rw [mergePair_cons hlt]
    exact .one (ih hst hfree)
  | two hb ih =>
    obtain ⟨r, st, rfl, hr, hst⟩ := map_eq_cons_iff.mp hhs
    obtain ⟨l, st, rfl, rfl, hbelow⟩ := map_eq_cons_iff.mp hst
    rw [firstPair, if_pos hr.symm]
    refine .zero ?_
    rw [← hbelow] at hb
    exact hb.push

end FirstPair

end ZClassic
