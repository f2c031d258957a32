import Mathlib.Data.Nat.BitIndices
import Mathlib.Tactic.Ring

/-!
# Forests of perfect trees

An append-only accumulator keeps the roots of perfect binary trees over consecutive leaves. The
trees stand on a stack, the one over the last leaves on top, and neighbours of equal height are
merged.
-/

namespace ZClassic

open List Nat

structure Mountain (α : Type) where
  peak : α
  height : ℕ
  deriving DecidableEq

def forestSize {α : Type} (st : List (Mountain α)) : ℕ := (st.map fun m => 2 ^ m.height).sum

/-- The leaf's place in its tree, from the sides it was on. -/
def pathIndex {α : Type} : List (Bool × α) → ℕ
  | [] => 0
  | step :: path => step.1.toNat + 2 * pathIndex path

/-- A node and its sibling in their order, for a node that is on the right or not. -/
def sidePair {α : Type} (x : α) : Bool × α → α × α
  | (false, y) => (x, y)
  | (true, y) => (y, x)

variable {α : Type} {node : α → α → α} {leaf : ℕ → α}

section Forest

variable (node : α → α → α) (leaf : ℕ → α)

/-- The root of the perfect tree of height `h` over the leaves from `s` on. -/
def treeRoot : ℕ → ℕ → α
  | 0, s => leaf s
  | h + 1, s => node (treeRoot h s) (treeRoot h (s + 2 ^ h))

/-- The mountains are the perfect trees over consecutive leaves, from the first leaf on. -/
def Covers : List (Mountain α) → Prop
  | [] => True
  | m :: st => m.peak = treeRoot node leaf m.height (forestSize st) ∧ Covers st

def climb (x : α) (path : List (Bool × α)) : α :=
  path.foldl (fun x step => node (sidePair x step).1 (sidePair x step).2) x

/-- Leaf `i`, whose hash is `x`, is in the mountain with `t` mountains below it, and the path leads
from it to the peak. -/
def Tracks (x : α) (i : ℕ) (path : List (Bool × α)) (t : ℕ) : List (Mountain α) → Prop
  | [] => False
  | m :: st =>
    (t = st.length ∧ path.length = m.height ∧ climb node x path = m.peak ∧
      forestSize st + pathIndex path = i) ∨ Tracks x i path t st

def treePairs : ℕ → ℕ → List (α × α)
  | 0, _ => []
  | h + 1, s => (treeRoot node leaf h s, treeRoot node leaf h (s + 2 ^ h)) ::
      (treePairs h s ++ treePairs h (s + 2 ^ h))

def climbPairs : α → List (Bool × α) → List (α × α)
  | _, [] => []
  | x, step :: path =>
    sidePair x step :: climbPairs (node (sidePair x step).1 (sidePair x step).2) path

def forestPairs : List ℕ → List (α × α)
  | [] => []
  | h :: hs => treePairs node leaf h (hs.map fun k => 2 ^ k).sum ++ forestPairs hs

end Forest

section Stacks

@[simp]
theorem forestSize_nil : forestSize ([] : List (Mountain α)) = 0 := rfl

@[simp]
theorem forestSize_cons (m : Mountain α) (st : List (Mountain α)) :
    forestSize (m :: st) = 2 ^ m.height + forestSize st := rfl

@[simp]
theorem forestSize_append (st st' : List (Mountain α)) :
    forestSize (st ++ st') = forestSize st + forestSize st' := by
  simp [forestSize]

theorem forestSize_eq_heights (st : List (Mountain α)) :
    forestSize st = ((st.map Mountain.height).map fun h => 2 ^ h).sum := by
  rw [forestSize, map_map]
  rfl

variable {st : List (Mountain α)} {m : Mountain α}

theorem two_pow_dvd_forestSize {k : ℕ} (h : ∀ m ∈ st, k ≤ m.height) : 2 ^ k ∣ forestSize st := by
  induction st with
  | nil => exact dvd_zero _
  | cons m st ih =>
    rw [forall_mem_cons] at h
    exact dvd_add (pow_dvd_pow 2 h.1) (ih h.2)

theorem two_pow_height_le_forestSize (h : m ∈ st) : 2 ^ m.height ≤ forestSize st :=
  le_sum_of_mem (mem_map_of_mem h)

variable {above st : List (Mountain α)}

theorem Covers.replace {st' : List (Mountain α)} (h : Covers node leaf (above ++ st))
    (hsize : forestSize st' = forestSize st) (h' : Covers node leaf st') :
    Covers node leaf (above ++ st') := by
  induction above with
  | nil => exact h'
  | cons m above ih =>
    rw [cons_append] at h ⊢
    refine ⟨?_, ih h.2⟩
    rw [h.1, forestSize_append, forestSize_append, hsize]

theorem Covers.of_append (h : Covers node leaf (above ++ st)) : Covers node leaf st := by
  induction above with
  | nil => exact h
  | cons m above ih => exact ih h.2

theorem Covers.peak_eq {below : List (Mountain α)} (h : Covers node leaf (above ++ m :: below)) :
    m.peak = treeRoot node leaf m.height (forestSize below) :=
  h.of_append.1

theorem Covers.push (h : Covers node leaf st) {x : α} (hx : x = leaf (forestSize st)) :
    Covers node leaf (⟨x, 0⟩ :: st) :=
  ⟨hx, h⟩

theorem Covers.ext {st' : List (Mountain α)} (h : Covers node leaf st)
    (h' : Covers node leaf st') (heq : st.map Mountain.height = st'.map Mountain.height) :
    st = st' := by
  induction st generalizing st' with
  | nil => exact (map_eq_nil_iff.mp heq.symm).symm
  | cons m st ih =>
    obtain ⟨m', st', rfl, hm, hst⟩ := map_eq_cons_iff.mp heq.symm
    have hrest := ih h.2 h'.2 hst.symm
    subst hrest
    congr 1
    have hpeak : m.peak = m'.peak := by rw [h.1, h'.1, hm]
    cases m
    cases m'
    exact congrArg₂ Mountain.mk hpeak hm.symm

end Stacks

section Paths

theorem climb_concat (x : α) (path : List (Bool × α)) (step : Bool × α) :
    climb node x (path ++ [step]) =
      node (sidePair (climb node x path) step).1 (sidePair (climb node x path) step).2 := by
  rw [climb, foldl_append]
  rfl

theorem climbPairs_concat (x : α) (path : List (Bool × α)) (step : Bool × α) :
    climbPairs node x (path ++ [step]) =
      climbPairs node x path ++ [sidePair (climb node x path) step] := by
  induction path generalizing x with
  | nil => rfl
  | cons first path ih =>
    rw [cons_append, climbPairs, ih]
    rfl

theorem pathIndex_lt (path : List (Bool × α)) : pathIndex path < 2 ^ path.length := by
  induction path with
  | nil => exact one_pos
  | cons step path ih =>
    have hbit : step.1.toNat ≤ 1 := Bool.toNat_le step.1
    rw [pathIndex, length_cons, pow_succ]
    omega

theorem pathIndex_concat (path : List (Bool × α)) (step : Bool × α) :
    pathIndex (path ++ [step]) = pathIndex path + 2 ^ path.length * step.1.toNat := by
  induction path with
  | nil => simp [pathIndex]
  | cons first path ih =>
    rw [cons_append, pathIndex, ih, pathIndex, length_cons, pow_succ]
    ring

def indexPath : ℕ → List α → List (Bool × α)
  | _, [] => []
  | i, y :: ys => (decide (i % 2 = 1), y) :: indexPath (i / 2) ys

@[simp]
theorem indexPath_length (i : ℕ) (ys : List α) : (indexPath i ys).length = ys.length := by
  induction ys generalizing i with
  | nil => rfl
  | cons y ys ih => rw [indexPath, length_cons, ih, length_cons]

theorem pathIndex_indexPath (i : ℕ) (ys : List α) :
    pathIndex (indexPath i ys) = i % 2 ^ ys.length := by
  induction ys generalizing i with
  | nil => simp [indexPath, pathIndex, mod_one]
  | cons y ys ih =>
    have hbit : (decide (i % 2 = 1)).toNat = i % 2 := by
      rcases mod_two_eq_zero_or_one i with h | h <;> rw [h] <;> rfl
    rw [indexPath, pathIndex, ih, hbit, length_cons, pow_succ', mod_mul]

theorem indexPath_pathIndex {i : ℕ} {path : List (Bool × α)}
    (h : i % 2 ^ path.length = pathIndex path) : indexPath i (path.map Prod.snd) = path := by
  induction path generalizing i with
  | nil => rfl
  | cons step path ih =>
    have hbit : step.1.toNat ≤ 1 := Bool.toNat_le step.1
    rw [length_cons, pow_succ', mod_mul, pathIndex] at h
    have hmod : i % 2 = step.1.toNat := by omega
    have hside : decide (i % 2 = 1) = step.1 := by
      rw [hmod]
      cases step.1 <;> rfl
    rw [map_cons, indexPath, ih (by omega), hside]

end Paths

/-- Two neighbours of a stack, the `right` one above the `left` one. -/
structure MountainPair (α : Type) where
  above : List (Mountain α)
  right : Mountain α
  left : Mountain α
  below : List (Mountain α)

namespace MountainPair

def stack (p : MountainPair α) : List (Mountain α) := p.above ++ p.right :: p.left :: p.below

/-- The pair is replaced by one mountain that is one higher. -/
def merged (node : α → α → α) (p : MountainPair α) : List (Mountain α) :=
  p.above ++ ⟨node p.left.peak p.right.peak, p.left.height + 1⟩ :: p.below

/-- Where the mountain with `t` mountains below it goes in the merge, and how the path of a leaf in
it grows. -/
def follow (p : MountainPair α) (t : ℕ) (path : List (Bool × α)) : ℕ × List (Bool × α) :=
  if t = p.below.length then (t, path ++ [(false, p.right.peak)])
  else if t = p.below.length + 1 then (p.below.length, path ++ [(true, p.left.peak)])
  else if p.below.length + 1 < t then (t - 1, path)
  else (t, path)

variable {p : MountainPair α}

theorem forestSize_merged (node : α → α → α) (h : p.left.height = p.right.height) :
    forestSize (p.merged node) = forestSize p.stack := by
  rw [merged, stack, forestSize_append, forestSize_append]
  simp only [forestSize_cons, ← h, pow_succ]
  ring

theorem covers_merged (h : p.left.height = p.right.height) (hc : Covers node leaf p.stack) :
    Covers node leaf (p.merged node) := by
  refine hc.replace ?_ ?_
  · simp only [forestSize_cons, ← h, pow_succ]
    ring
  · obtain ⟨hright, hleft, hbelow⟩ := hc.of_append
    refine ⟨?_, hbelow⟩
    rw [hright, hleft, ← h, treeRoot, forestSize_cons, add_comm]

end MountainPair

section Tracking

variable {x : α} {i t : ℕ} {path : List (Bool × α)}

variable {st : List (Mountain α)}

theorem Tracks.lt (h : Tracks node x i path t st) : t < st.length := by
  induction st with
  | nil => exact h.elim
  | cons m st ih =>
    rw [length_cons]
    rcases h with h | h
    · omega
    · exact (ih h).trans (lt_succ_self _)

theorem Tracks.exists_mountain (h : Tracks node x i path t st) :
    ∃ above m below, st = above ++ m :: below ∧ path.length = m.height ∧
      climb node x path = m.peak ∧ forestSize below + pathIndex path = i := by
  induction st with
  | nil => exact h.elim
  | cons m st ih =>
    rcases h with ⟨-, h⟩ | h
    · exact ⟨[], m, st, rfl, h⟩
    · obtain ⟨above, m', below, rfl, hpath⟩ := ih h
      exact ⟨m :: above, m', below, rfl, hpath⟩

theorem tracks_push (node : α → α → α) (x : α) (st : List (Mountain α)) :
    Tracks node x (forestSize st) [] st.length (⟨x, 0⟩ :: st) :=
  .inl ⟨rfl, rfl, rfl, rfl⟩

theorem tracks_follow_pair {below : List (Mountain α)} {l r : Mountain α}
    (h : l.height = r.height) (ht : Tracks node x i path t (r :: l :: below)) :
    Tracks node x i ((MountainPair.mk [] r l below).follow t path).2
      ((MountainPair.mk [] r l below).follow t path).1
      (⟨node l.peak r.peak, l.height + 1⟩ :: below) := by
  rcases ht with ⟨rfl, hlen, hclimb, hi⟩ | ⟨rfl, hlen, hclimb, hi⟩ | ht
  · -- on the right: its tree starts one left neighbour earlier from now on
    rw [MountainPair.follow, length_cons, if_neg (succ_ne_self _), if_pos rfl]
    refine .inl ⟨rfl, ?_, ?_, ?_⟩
    · rw [length_append, hlen, h]
      rfl
    · rw [climb_concat, hclimb]
      rfl
    · rw [pathIndex_concat, hlen, ← h, ← hi, forestSize_cons, Bool.toNat_true]
      ring
  · rw [MountainPair.follow, if_pos rfl]
    refine .inl ⟨rfl, ?_, ?_, ?_⟩
    · rw [length_append, hlen]
      rfl
    · rw [climb_concat, hclimb]
      rfl
    · rw [pathIndex_concat, ← hi, Bool.toNat_false, mul_zero, add_zero]
  · have hlt : t < below.length := ht.lt
    have hnot : ¬t = below.length + 1 := by omega
    rw [MountainPair.follow, if_neg hlt.ne, if_neg hnot, if_neg (hlt.trans (lt_succ_self _)).not_gt]
    exact .inr ht

theorem Tracks.merge {p : MountainPair α} (h : p.left.height = p.right.height)
    (ht : Tracks node x i path t p.stack) :
    Tracks node x i (p.follow t path).2 (p.follow t path).1 (p.merged node) := by
  obtain ⟨above, r, l, below⟩ := p
  change Tracks node x i path t (above ++ r :: l :: below) at ht
  induction above with
  | nil => exact tracks_follow_pair h ht
  | cons m above ih =>
    rw [cons_append] at ht
    rcases ht with ⟨hlast, hlen, hclimb, hi⟩ | ht
    · -- above the pair: only its place changes
      have hlt : below.length + 1 < t := by
        rw [hlast, length_append, length_cons, length_cons]
        omega
      rw [MountainPair.follow, if_neg (lt_of_succ_lt hlt).ne', if_neg hlt.ne', if_pos hlt]
      refine .inl ⟨?_, hlen, hclimb, ?_⟩
      · rw [hlast, length_append, append_eq, length_append]
        rfl
      · rw [← hi]
        exact congrArg (· + pathIndex path)
          (MountainPair.forestSize_merged node (p := ⟨above, r, l, below⟩) h)
    · exact .inr (ih h ht)

end Tracking

/-! ## Paths to a peak

When no two different pairs have one hash and no leaf is the hash of a pair, a path that leads to
the root of a tree starts at the leaf it points to. -/

section Binding

theorem climb_eq_start_or_node (node : α → α → α) (x : α) (path : List (Bool × α)) :
    climb node x path = x ∨ ∃ p ∈ climbPairs node x path, climb node x path = node p.1 p.2 := by
  rcases eq_nil_or_concat path with rfl | ⟨path, step, rfl⟩
  · exact .inl rfl
  · rw [concat_eq_append, climb_concat, climbPairs_concat]
    exact .inr ⟨_, mem_append_right _ mem_cons_self, rfl⟩

theorem treeRoot_eq_leaf_or_node (node : α → α → α) (leaf : ℕ → α) (h s : ℕ) :
    treeRoot node leaf h s = leaf s ∨
      ∃ p ∈ treePairs node leaf h s, treeRoot node leaf h s = node p.1 p.2 := by
  cases h with
  | zero => exact .inl rfl
  | succ h => exact .inr ⟨_, mem_cons_self, rfl⟩

variable {path : List (Bool × α)} {x : α} {above below : List (Mountain α)} {m : Mountain α}

theorem eq_leaf_of_climb_eq_treeRoot {h s : ℕ}
    (hnode : ∀ p ∈ climbPairs node x path, ∀ q ∈ treePairs node leaf h s,
      node p.1 p.2 = node q.1 q.2 → p = q)
    (hx : ∀ q ∈ treePairs node leaf h s, x ≠ node q.1 q.2)
    (hleaf : ∀ p ∈ climbPairs node x path, ∀ i, s ≤ i → i < s + 2 ^ h → leaf i ≠ node p.1 p.2)
    (heq : climb node x path = treeRoot node leaf h s) :
    path.length = h ∧ x = leaf (s + pathIndex path) := by
  -- the path and the tree are taken apart from the top
  induction h generalizing s path with
  | zero =>
    rcases eq_nil_or_concat path with rfl | ⟨path, step, rfl⟩
    · exact ⟨rfl, heq⟩
    · rw [concat_eq_append] at heq hleaf
      rw [climb_concat] at heq
      rw [climbPairs_concat] at hleaf
      exact absurd heq.symm (hleaf _ (by simp) s le_rfl (by omega))
  | succ h ih =>
    rcases eq_nil_or_concat path with rfl | ⟨path, ⟨side, y⟩, rfl⟩
    · exact absurd heq (hx _ mem_cons_self)
    · rw [concat_eq_append] at heq hleaf hnode ⊢
      rw [climb_concat] at heq
      rw [climbPairs_concat] at hleaf hnode
      have hpair := hnode _ (by simp) _ mem_cons_self heq
      have hpos : 0 < 2 ^ h := Nat.two_pow_pos h
      have hdown : ∀ s', (∀ q ∈ treePairs node leaf h s', q ∈ treePairs node leaf (h + 1) s) →
          s ≤ s' → s' + 2 ^ h ≤ s + 2 ^ (h + 1) →
          climb node x path = treeRoot node leaf h s' →
          path.length = h ∧ x = leaf (s' + pathIndex path) := by
        intro s' hsub hle hle' heq'
        refine ih (fun p hp q hq => hnode p (mem_append_left _ hp) q (hsub q hq))
          (fun q hq => hx q (hsub q hq)) (fun p hp j hj hj' => ?_) heq'
        exact hleaf p (mem_append_left _ hp) j (hle.trans hj) (hj'.trans_le hle')
      rw [length_append, pathIndex_concat]
      cases side with
      | false =>
        obtain ⟨hlen, hx⟩ := hdown s (fun q hq => by simp [treePairs, hq]) le_rfl (by omega)
          (congrArg Prod.fst hpair)
        exact ⟨congrArg (· + 1) hlen, hx⟩
      | true =>
        obtain ⟨hlen, hx⟩ := hdown (s + 2 ^ h) (fun q hq => by simp [treePairs, hq]) (by omega)
          (by omega) (congrArg Prod.snd hpair)
        refine ⟨congrArg (· + 1) hlen, ?_⟩
        rw [hx, hlen, Bool.toNat_true, mul_one]
        congr 1
        omega

theorem mem_forestPairs {q : α × α} (hq : q ∈ treePairs node leaf m.height (forestSize below)) :
    q ∈ forestPairs node leaf ((above ++ m :: below).map Mountain.height) := by
  rw [forestSize_eq_heights] at hq
  induction above with
  | nil => exact mem_append_left _ hq
  | cons m' above ih => exact mem_append_right _ ih

theorem Covers.eq_leaf_of_climb_eq_peak (hc : Covers node leaf (above ++ m :: below))
    (hnode : ∀ p ∈ climbPairs node x path,
      ∀ q ∈ forestPairs node leaf ((above ++ m :: below).map Mountain.height),
        node p.1 p.2 = node q.1 q.2 → p = q)
    (hx : ∀ q ∈ forestPairs node leaf ((above ++ m :: below).map Mountain.height), x ≠ node q.1 q.2)
    (hleaf : ∀ p ∈ climbPairs node x path, ∀ i < forestSize (above ++ m :: below),
      leaf i ≠ node p.1 p.2)
    (hpeak : climb node x path = m.peak) :
    path.length = m.height ∧ x = leaf (forestSize below + pathIndex path) := by
  have hsub : ∀ q ∈ treePairs node leaf m.height (forestSize below),
      q ∈ forestPairs node leaf ((above ++ m :: below).map Mountain.height) := fun q hq =>
    mem_forestPairs hq
  have hsize : forestSize below + 2 ^ m.height ≤ forestSize (above ++ m :: below) := by
    rw [forestSize_append, forestSize_cons]
    omega
  apply eq_leaf_of_climb_eq_treeRoot
  · exact fun p hp q hq => hnode p hp q (hsub q hq)
  · exact fun q hq => hx q (hsub q hq)
  · exact fun p hp i _ hi => hleaf p hp i (hi.trans_le hsize)
  · rw [hpeak, hc.peak_eq]

end Binding

section Bits

variable {st above below : List (Mountain α)} {m : Mountain α}

/-- The heights of a stack, if they get strictly larger downwards, are the one bits of its size. -/
theorem heights_eq_bitIndices (h : (st.map Mountain.height).Pairwise (· < ·)) :
    st.map Mountain.height = (forestSize st).bitIndices := by
  rw [forestSize_eq_heights, bitIndices_sum_map_two_pow h.sortedLT]

theorem two_pow_dvd_below (h : ((above ++ m :: below).map Mountain.height).Pairwise (· < ·)) :
    2 ^ (m.height + 1) ∣ forestSize below := by
  rw [map_append, pairwise_append, map_cons, pairwise_cons] at h
  exact two_pow_dvd_forestSize fun m' hm' => h.2.1.1 _ (mem_map_of_mem hm')

theorem forestSize_add_two_pow_le {a k : ℕ} (h : (st.map Mountain.height).Pairwise (· < ·))
    (ha : ∀ m ∈ st, a ≤ m.height) (hk : ∀ m ∈ st, m.height < k) (hak : a ≤ k) :
    forestSize st + 2 ^ a ≤ 2 ^ k := by
  induction st generalizing a with
  | nil =>
    rw [forestSize_nil, Nat.zero_add]
    exact Nat.pow_le_pow_right Nat.two_pos hak
  | cons m st ih =>
    rw [map_cons, pairwise_cons, forall_mem_map] at h
    rw [forall_mem_cons] at ha hk
    have hrest := ih h.2 h.1 hk.2 hk.1
    have hpow : 2 ^ a ≤ 2 ^ m.height := Nat.pow_le_pow_right Nat.two_pos ha.1
    rw [pow_succ] at hrest
    rw [forestSize_cons]
    omega

theorem forestSize_below (h : ((above ++ m :: below).map Mountain.height).Pairwise (· < ·)) :
    forestSize below =
      2 ^ (m.height + 1) * (forestSize (above ++ m :: below) / 2 ^ (m.height + 1)) := by
  obtain ⟨q, hq⟩ := two_pow_dvd_below h
  have habove : forestSize above + 2 ^ 0 ≤ 2 ^ m.height := by
    rw [map_append, pairwise_append] at h
    refine forestSize_add_two_pow_le h.1 (fun _ _ => zero_le _) (fun m' hm' => ?_)
      (zero_le _)
    exact h.2.2 _ (mem_map_of_mem hm') _ mem_cons_self
  have hlow : forestSize above + 2 ^ m.height < 2 ^ (m.height + 1) := by
    rw [pow_succ]
    omega
  rw [forestSize_append, forestSize_cons, hq, ← add_assoc, add_mul_div_left _ _ (by omega),
    div_eq_of_lt hlow, zero_add]

end Bits

end ZClassic
