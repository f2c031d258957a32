import Mathlib.Tactic.Ring
import ZClassic.Lib.MerkleLevels

/-!
# Partial trees

A tree of hashes of which some subtrees are pruned to their root, and its two streams: a bit for
every node in depth-first order and a hash for every leaf.
-/

namespace ZClassic

open List

/-- `half` has no right child: its level ends there, and the left child is hashed with itself. -/
inductive PartialTree (α : Type) where
  | pruned (h : α)
  | matched (h : α)
  | half (left : PartialTree α)
  | node (left right : PartialTree α)

variable {height pos n top : ℕ} {width : ℕ → ℕ}

namespace PartialTree

variable {α : Type}

def bits : PartialTree α → List Bool
  | pruned _ => [false]
  | matched _ => [true]
  | half l => true :: l.bits
  | node l r => true :: (l.bits ++ r.bits)

def hashes : PartialTree α → List α
  | pruned h => [h]
  | matched h => [h]
  | half l => l.hashes
  | node l r => l.hashes ++ r.hashes

def matchedLeaves : PartialTree α → List α
  | pruned _ => []
  | matched h => [h]
  | half l => l.matchedLeaves
  | node l r => l.matchedLeaves ++ r.matchedLeaves

def root (hash : α × α → α) : PartialTree α → α
  | pruned h => h
  | matched h => h
  | half l => hash (l.root hash, l.root hash)
  | node l r => hash (l.root hash, r.root hash)

def pairs (hash : α × α → α) : PartialTree α → List (α × α)
  | pruned _ => []
  | matched _ => []
  | half l => (l.root hash, l.root hash) :: l.pairs hash
  | node l r => (l.root hash, r.root hash) :: (l.pairs hash ++ r.pairs hash)

def Distinct (hash : α × α → α) : PartialTree α → Prop
  | pruned _ => True
  | matched _ => True
  | half l => l.Distinct hash
  | node l r => l.Distinct hash ∧ r.Distinct hash ∧ l.root hash ≠ r.root hash

/-- The tree has its root at a height and a position, in levels of these widths. -/
inductive Fits (width : ℕ → ℕ) : ℕ → ℕ → PartialTree α → Prop where
  | pruned (height pos : ℕ) (h : α) : Fits width height pos (pruned h)
  | matched (pos : ℕ) (h : α) : Fits width 0 pos (matched h)
  | half {height pos : ℕ} {l : PartialTree α} (hwidth : width height ≤ 2 * pos + 1)
      (hl : Fits width height (2 * pos) l) : Fits width (height + 1) pos (half l)
  | node {height pos : ℕ} {l r : PartialTree α} (hwidth : 2 * pos + 1 < width height)
      (hl : Fits width height (2 * pos) l) (hr : Fits width height (2 * pos + 1) r) :
      Fits width (height + 1) pos (node l r)

def parse (width : ℕ → ℕ) : ℕ → ℕ → List Bool → List α → Option (PartialTree α × List Bool × List α)
  | _, _, [], _ => none
  | _, _, false :: bs, hs => do
    let h ← hs.head?
    return (pruned h, bs, hs.tail)
  | 0, _, true :: bs, hs => do
    let h ← hs.head?
    return (matched h, bs, hs.tail)
  | height + 1, pos, true :: bs, hs => do
    let (l, bs, hs) ← parse width height (2 * pos) bs hs
    if 2 * pos + 1 < width height then
      let (r, bs, hs) ← parse width height (2 * pos + 1) bs hs
      return (node l r, bs, hs)
    else return (half l, bs, hs)

variable {p : PartialTree α}

theorem parse_eq (hfits : Fits width height pos p) (bs : List Bool) (hs : List α) :
    parse width height pos (p.bits ++ bs) (p.hashes ++ hs) = some (p, bs, hs) := by
  induction hfits generalizing bs hs with
  | pruned height pos h => cases height <;> rfl
  | matched pos h => rfl
  | half hwidth hl ih =>
    simp only [bits, hashes, cons_append, parse, ih, Option.bind_eq_bind, Option.bind_some,
      if_neg (Nat.not_lt.mpr hwidth)]
    rfl
  | node hwidth hl hr ihl ihr =>
    simp only [bits, hashes, cons_append, append_assoc, parse, ihl, ihr,
      Option.bind_eq_bind, Option.bind_some, if_pos hwidth]
    rfl

theorem hashes_length_le_bits (p : PartialTree α) : p.hashes.length ≤ p.bits.length := by
  induction p with
  | pruned h => exact le_rfl
  | matched h => exact le_rfl
  | half l ih => exact Nat.le_succ_of_le ih
  | node l r ihl ihr =>
    simp only [bits, hashes, length_append, length_cons]
    omega

theorem bits_length_lt (hfits : Fits width height pos p) : p.bits.length < 2 ^ (height + 1) := by
  induction hfits with
  | pruned height pos h => exact Nat.one_lt_two_pow (by omega)
  | matched pos h => exact Nat.lt_two_pow_self
  | half hwidth hl ih =>
    simp only [bits, length_cons]
    rw [Nat.pow_succ]
    omega
  | node hwidth hl hr ihl ihr =>
    simp only [bits, length_cons, length_append]
    rw [Nat.pow_succ]
    omega

def leavesBelow (n height pos : ℕ) : ℕ := min n ((pos + 1) * 2 ^ height) - pos * 2 ^ height

theorem leaf_bounds (height pos : ℕ) :
    pos * 2 ^ (height + 1) = 2 * pos * 2 ^ height ∧
      (2 * pos + 1) * 2 ^ height = 2 * pos * 2 ^ height + 2 ^ height ∧
      (pos + 1) * 2 ^ (height + 1) = 2 * pos * 2 ^ height + 2 * 2 ^ height ∧
      (2 * pos + 1 + 1) * 2 ^ height = 2 * pos * 2 ^ height + 2 * 2 ^ height := by
  refine ⟨?_, ?_, ?_, ?_⟩ <;> ring

section Widths

variable {width : ℕ → ℕ} {n top : ℕ} (hwidth : ∀ h ≤ top, ∀ i, i < width h ↔ i * 2 ^ h < n)

include hwidth

theorem left_lt_width (htop : height + 1 ≤ top) (hpos : pos < width (height + 1)) :
    2 * pos < width height := by
  rw [hwidth _ (by omega)] at hpos ⊢
  have hbounds := leaf_bounds height pos
  omega

theorem hashes_length_le (hfits : Fits width height pos p) (htop : height ≤ top)
    (hpos : pos < width height) : p.hashes.length ≤ leavesBelow n height pos := by
  induction hfits with
  | pruned height pos h =>
    rw [hwidth _ htop] at hpos
    have hpow : 0 < 2 ^ height := Nat.two_pow_pos height
    change 1 ≤ min n ((pos + 1) * 2 ^ height) - pos * 2 ^ height
    rw [Nat.succ_mul]
    omega
  | matched pos h =>
    rw [hwidth _ htop] at hpos
    change 1 ≤ min n ((pos + 1) * 2 ^ 0) - pos * 2 ^ 0
    omega
  | @half height pos l hle hl ih =>
    have hleft := ih (by omega) (left_lt_width hwidth htop hpos)
    have hbounds := leaf_bounds height pos
    simp only [hashes, leavesBelow] at hleft ⊢
    omega
  | @node height pos l r hlt hl hr ihl ihr =>
    have hleft := ihl (by omega) (left_lt_width hwidth htop hpos)
    have hright := ihr (by omega) hlt
    rw [hwidth height (by omega)] at hlt
    have hbounds := leaf_bounds height pos
    simp only [hashes, leavesBelow, length_append] at hleft hright ⊢
    omega

end Widths

section Prune

variable (value : ℕ → ℕ → α) (marked : ℕ → ℕ → Bool) (width : ℕ → ℕ)

def prune : ℕ → ℕ → PartialTree α
  | 0, pos => if marked 0 pos then matched (value 0 pos) else pruned (value 0 pos)
  | height + 1, pos =>
    if marked (height + 1) pos then
      if 2 * pos + 1 < width height then
        node (prune height (2 * pos)) (prune height (2 * pos + 1))
      else half (prune height (2 * pos))
    else pruned (value (height + 1) pos)

theorem prune_fits (height pos : ℕ) :
    Fits width height pos (prune value marked width height pos) := by
  induction height generalizing pos with
  | zero =>
    unfold prune
    split_ifs
    · exact .matched pos _
    · exact .pruned 0 pos _
  | succ height ih =>
    unfold prune
    split_ifs with hmarked hlt
    · exact .node hlt (ih _) (ih _)
    · exact .half (Nat.not_lt.mp hlt) (ih _)
    · exact .pruned _ pos _

variable {value marked width} {hash : α × α → α}

section

variable
  (hvalue : ∀ h i, value (h + 1) i = hash (value h (2 * i),
    if 2 * i + 1 < width h then value h (2 * i + 1) else value h (2 * i)))

include hvalue

theorem root_prune
    (height pos : ℕ) : (prune value marked width height pos).root hash = value height pos := by
  induction height generalizing pos with
  | zero =>
    unfold prune
    split_ifs <;> rfl
  | succ height ih =>
    unfold prune
    split_ifs with hmarked hlt
    · rw [root, ih, ih, hvalue, if_pos hlt]
    · rw [root, ih, hvalue, if_neg hlt]
    · rfl

theorem distinct_prune
    {top : ℕ} (hsiblings : ∀ h < top, ∀ i, 2 * i + 1 < width h →
      value h (2 * i) ≠ value h (2 * i + 1))
    {height : ℕ} (htop : height ≤ top) (pos : ℕ) :
    (prune value marked width height pos).Distinct hash := by
  induction height generalizing pos with
  | zero =>
    unfold prune
    split_ifs <;> exact trivial
  | succ height ih =>
    unfold prune
    split_ifs with hmarked hlt
    · refine ⟨ih (by omega) _, ih (by omega) _, ?_⟩
      rw [root_prune hvalue, root_prune hvalue]
      exact hsiblings height (by omega) pos hlt
    · exact ih (by omega) _
    · trivial

end

theorem range_leavesBelow (hwidth : ∀ h ≤ top, ∀ i, i < width h ↔ i * 2 ^ h < n)
    (htop : height + 1 ≤ top) :
    range' (pos * 2 ^ (height + 1)) (leavesBelow n (height + 1) pos) =
      range' (2 * pos * 2 ^ height) (leavesBelow n height (2 * pos)) ++
        if 2 * pos + 1 < width height then
          range' ((2 * pos + 1) * 2 ^ height) (leavesBelow n height (2 * pos + 1))
        else [] := by
  have hbounds := leaf_bounds height pos
  split_ifs with hlt
  · rw [hwidth height (by omega)] at hlt
    have hfull : leavesBelow n height (2 * pos) = 2 ^ height := by
      unfold leavesBelow
      omega
    have hsum : leavesBelow n (height + 1) pos =
        2 ^ height + leavesBelow n height (2 * pos + 1) := by
      unfold leavesBelow
      omega
    rw [hfull, hsum, hbounds.1, hbounds.2.1, range'_append_1]
  · rw [hwidth height (by omega)] at hlt
    have hsame : leavesBelow n (height + 1) pos = leavesBelow n height (2 * pos) := by
      unfold leavesBelow
      omega
    rw [hsame, hbounds.1, append_nil]

theorem matchedLeaves_prune (hwidth : ∀ h ≤ top, ∀ i, i < width h ↔ i * 2 ^ h < n)
    {marks : ℕ → Bool}
    (hmarked : ∀ h i, marked h i = true ↔ ∃ j, i * 2 ^ h ≤ j ∧ j < (i + 1) * 2 ^ h ∧ j < n ∧
      marks j = true)
    (htop : height ≤ top) (hpos : pos < width height) :
    (prune value marked width height pos).matchedLeaves =
      ((range' (pos * 2 ^ height) (leavesBelow n height pos)).filter marks).map (value 0) := by
  induction height generalizing pos with
  | zero =>
    have hlt : pos < n := by simpa using (hwidth 0 htop pos).mp hpos
    have hone : leavesBelow n 0 pos = 1 := by
      unfold leavesBelow
      omega
    have hiff : marked 0 pos = marks pos := by
      rw [Bool.eq_iff_iff, hmarked]
      constructor
      · rintro ⟨j, hle, hj, -, hmark⟩
        rwa [show pos = j by omega]
      · intro hmark
        exact ⟨pos, by omega, by omega, hlt, hmark⟩
    rw [hone, prune, hiff]
    cases hmark : marks pos with
    | false => simp [matchedLeaves, hmark]
    | true => simp [matchedLeaves, hmark]
  | succ height ih =>
    unfold prune
    split_ifs with hmark hlt
    · rw [range_leavesBelow hwidth htop, if_pos hlt, filter_append, map_append,
        matchedLeaves, ih (by omega) (left_lt_width hwidth htop hpos), ih (by omega) hlt]
    · rw [range_leavesBelow hwidth htop, if_neg hlt, append_nil, matchedLeaves,
        ih (by omega) (left_lt_width hwidth htop hpos)]
    · -- nothing below an unmarked node is marked
      have hnone : (range' (pos * 2 ^ (height + 1)) (leavesBelow n (height + 1) pos)).filter
          marks = [] := by
        rw [filter_eq_nil_iff]
        intro j hj hmarks
        rw [mem_range'_1] at hj
        unfold leavesBelow at hj
        exact hmark ((hmarked _ _).mpr ⟨j, hj.1, by omega, by omega, hmarks⟩)
      rw [hnone]
      rfl

end Prune

section Soundness

variable {hash : α × α → α} {xs : List α}

/-- A hash with the value of a node of the whole tree is the hash of two nodes one level below. -/
theorem mem_levelAt_of_hash_mem {height : ℕ} (htop : height < top) {q : α × α}
    (hinj : ∀ q' ∈ pairsBelow hash xs top, hash q = hash q' → q = q')
    (hmem : hash q ∈ levelAt hash xs (height + 1)) :
    q.1 ∈ levelAt hash xs height ∧ q.2 ∈ levelAt hash xs height := by
  obtain ⟨q', hq', heq⟩ := mem_map.mp hmem
  rw [hinj q' (mem_pairsBelow hash htop hq') heq.symm]
  exact mem_of_mem_pairUp hq'

/-- A tree whose root is a node of the whole tree has its matched leaves among the nodes that lie
as far below. -/
theorem mem_levelAt_of_mem_matchedLeaves (hfits : Fits width height pos p)
    (hinj : ∀ q ∈ p.pairs hash, ∀ q' ∈ pairsBelow hash xs top, hash q = hash q' → q = q')
    {below : ℕ} (htop : below + height ≤ top)
    (hroot : p.root hash ∈ levelAt hash xs (below + height)) :
    ∀ x ∈ p.matchedLeaves, x ∈ levelAt hash xs below := by
  induction hfits with
  | pruned height pos h =>
    intro x hx
    exact absurd hx not_mem_nil
  | matched pos h =>
    intro x hx
    rw [mem_singleton.mp hx]
    exact hroot
  | half hle hl ih =>
    have hchildren := mem_levelAt_of_hash_mem htop (hinj _ mem_cons_self) hroot
    exact ih (fun q hq => hinj q (mem_cons_of_mem _ hq)) (by omega) hchildren.1
  | node hlt hl hr ihl ihr =>
    have hchildren := mem_levelAt_of_hash_mem htop (hinj _ mem_cons_self) hroot
    intro x hx
    rcases mem_append.mp hx with hx | hx
    · exact ihl (fun q hq => hinj q (mem_cons_of_mem _ (mem_append_left _ hq))) (by omega)
        hchildren.1 x hx
    · exact ihr (fun q hq => hinj q (mem_cons_of_mem _ (mem_append_right _ hq)))
        (by omega) hchildren.2 x hx

end Soundness

end PartialTree

end ZClassic
