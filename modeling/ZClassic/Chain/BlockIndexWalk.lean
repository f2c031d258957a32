import ZClassic.Chain.Pow

/-!
# Walks over the block index

The skip pointers of `lib/chain/src/chain.c` and the median time past of `chain.h`.
-/

namespace ZClassic

open List Function

def invertLowestOne (n : ℕ) : ℕ := n &&& (n - 1)

def getSkipHeight (height : ℕ) : ℕ :=
  if height < 2 then 0
  else if height % 2 = 1 then invertLowestOne (invertLowestOne (height - 1)) + 1
  else invertLowestOne height

theorem invertLowestOne_le (n : ℕ) : invertLowestOne n ≤ n - 1 := Nat.and_le_right

theorem getSkipHeight_lt {height : ℕ} (h : 0 < height) : getSkipHeight height < height := by
  have heven := invertLowestOne_le height
  have hodd := invertLowestOne_le (height - 1)
  have hodd' := invertLowestOne_le (invertLowestOne (height - 1))
  unfold getSkipHeight
  split_ifs <;> omega

namespace HeaderIndex

section Skip

variable (index : HeaderIndex) (pskip : UInt256 → Option UInt256)

/-- The loop of `block_index_get_ancestor`; `h` is the height of `walk`. -/
def walkToHeight (height h : ℕ) (walk : UInt256) : Option UInt256 :=
  if h ≤ height then some walk
  else
    let skipH := getSkipHeight h
    let skipHPrev := getSkipHeight (h - 1)
    match pskip walk with
    | some skip =>
      if skipH = height ∨ (height < skipH ∧ ¬(skipHPrev < skipH - 2 ∧ height ≤ skipHPrev)) then
        walkToHeight height skipH skip
      else (index.pprev walk).bind (walkToHeight height (h - 1))
    | none => (index.pprev walk).bind (walkToHeight height (h - 1))
termination_by h
decreasing_by
  · exact getSkipHeight_lt (by omega)
  · omega
  · omega

def getAncestor (bi : UInt256) (height : ℤ) : Option UInt256 :=
  if index.nHeight bi < height ∨ height < 0 then none
  else index.walkToHeight pskip height.toNat (index.nHeight bi).toNat bi

def buildSkip (bi : UInt256) : UInt256 → Option UInt256 :=
  match index.pprev bi with
  | none => pskip
  | some parent =>
    Function.update pskip bi
      (index.getAncestor pskip parent (getSkipHeight (index.nHeight bi).toNat))

def buildSkips (chain : List UInt256) : UInt256 → Option UInt256 :=
  chain.foldl index.buildSkip fun _ => none

end Skip

/-- The blocks of a chain from height 0 on, each linked to the one before it. -/
structure Linked (index : HeaderIndex) (chain : List UInt256) : Prop where
  height : ∀ (i : ℕ) b, chain[i]? = some b → index.nHeight b = i
  parent : ∀ (i : ℕ) b, chain[i]? = some b → index.pprev b = if i = 0 then none else chain[i - 1]?

def Skips (chain : List UInt256) (pskip : UInt256 → Option UInt256) (n : ℕ) : Prop :=
  ∀ i < n, ∀ b, chain[i]? = some b → 0 < i → pskip b = chain[getSkipHeight i]?

section Linked

variable {index : HeaderIndex} {chain : List UInt256} {pskip : UInt256 → Option UInt256} {i h : ℕ}
  {height : ℕ} {b : UInt256}

theorem exists_getElem_of_le (hb : chain[h]? = some b) (hi : i ≤ h) : ∃ c, chain[i]? = some c := by
  obtain ⟨hlt, -⟩ := List.getElem?_eq_some_iff.mp hb
  exact ⟨chain[i], List.getElem?_eq_getElem (by omega)⟩

section

variable (hchain : index.Linked chain)

include hchain

section

variable (hskips : Skips chain pskip (h + 1)) (hb : chain[h]? = some b) (hle : height ≤ h)

include hskips hb hle

theorem Linked.walkToHeight_eq :
    index.walkToHeight pskip height h b = chain[height]? := by
  induction h using Nat.strongRecOn generalizing b with
  | ind h ih =>
    have hwalk : ∀ j < h, height ≤ j → ∀ c, chain[j]? = some c →
        index.walkToHeight pskip height j c = chain[height]? :=
      fun j hj hle c hc => ih j hj (fun i hi => hskips i (by omega)) hc hle
    unfold walkToHeight
    split_ifs with hdone
    · rw [← hb, le_antisymm hdone hle]
    have hprev : (index.pprev b).bind (index.walkToHeight pskip height (h - 1)) =
        chain[height]? := by
      obtain ⟨c, hc⟩ := exists_getElem_of_le hb (Nat.sub_le h 1)
      rw [hchain.parent h b hb, if_neg (by omega), hc, Option.bind_some]
      exact hwalk (h - 1) (by omega) (by omega) c hc
    have hlt : getSkipHeight h < h := getSkipHeight_lt (by omega)
    obtain ⟨c, hc⟩ := exists_getElem_of_le hb hlt.le
    rw [hskips h (by omega) b hb (by omega), hc]
    dsimp only
    split_ifs with hjump
    · exact hwalk _ hlt (by omega) c hc
    · exact hprev

theorem Linked.getAncestor_eq :
    index.getAncestor pskip b height = chain[height]? := by
  rw [getAncestor, hchain.height h b hb, if_neg (by omega), Int.toNat_natCast, Int.toNat_natCast]
  exact hchain.walkToHeight_eq hskips hb hle

end

theorem Linked.skips_take {n : ℕ} (hn : n ≤ chain.length) :
    Skips chain (index.buildSkips (chain.take n)) n := by
  induction n with
  | zero => exact fun i hi => absurd hi (Nat.not_lt_zero i)
  | succ n ih =>
    have hskips := ih (by omega)
    have hn' : chain[n]? = some chain[n] := getElem?_eq_getElem hn
    intro i hi b hb hpos
    obtain ⟨c, hc⟩ := exists_getElem_of_le hn' (Nat.sub_le n 1)
    have hskip := getSkipHeight_lt (show 0 < n by omega)
    have hbelow : Skips chain (index.buildSkips (chain.take n)) (n - 1 + 1) :=
      fun j hj => hskips j (by omega)
    rw [buildSkips, take_succ_eq_append_getElem hn, foldl_append, ← buildSkips,
      foldl_cons, foldl_nil, buildSkip, hchain.parent n _ hn', if_neg (by omega), hc]
    dsimp only
    rw [hchain.height n _ hn', Int.toNat_natCast, hchain.getAncestor_eq hbelow hc (by omega)]
    by_cases heq : i = n
    · rw [heq, hn', Option.some.injEq] at hb
      rw [heq, hb, update_self]
    · have hne : b ≠ chain[n] := by
        intro hsame
        have hheight := hchain.height i b hb
        rw [hsame, hchain.height n _ hn', Nat.cast_inj] at hheight
        exact heq hheight.symm
      rw [update_of_ne hne]
      exact hskips i (by omega) b hb hpos

theorem Linked.ancestor_eq {n : ℕ} (hb : chain[height + n]? = some b) :
    index.ancestor n (some b) = chain[height]? := by
  induction n generalizing b with
  | zero => exact hb.symm
  | succ n ih =>
    obtain ⟨c, hc⟩ := exists_getElem_of_le hb (Nat.le_succ (height + n))
    rw [ancestor, Option.bind_some, hchain.parent _ b hb, if_neg (by omega),
      show height + (n + 1) - 1 = height + n by omega, hc]
    exact ih hc

end

end Linked

end HeaderIndex

/-- The walk over skip pointers ends where the walk over parents does. -/
theorem getAncestor_follows_parents (index : HeaderIndex) (chain : List UInt256)
    (hchain : index.Linked chain) (i height : ℕ) (b : UInt256) (hb : chain[i]? = some b)
    (hle : height ≤ i) : ∃ a, index.getAncestor (index.buildSkips chain) b height = some a ∧
      index.ancestor (i - height) (some b) = some a := by
  have hskips := hchain.skips_take (Nat.le_refl chain.length)
  rw [List.take_length] at hskips
  obtain ⟨hlt, -⟩ := List.getElem?_eq_some_iff.mp hb
  obtain ⟨a, ha⟩ := HeaderIndex.exists_getElem_of_le hb hle
  refine ⟨a, ?_, ?_⟩
  · rw [hchain.getAncestor_eq (fun j hj => hskips j (by omega)) hb hle, ha]
  · rw [← Nat.add_sub_cancel' hle] at hb
    rw [hchain.ancestor_eq hb, ha]

def lineIndex : HeaderIndex where
  pprev b := if b = 0 then none else some (b - 1)
  nHeight b := b.toNat
  nTime b := .ofNat b.toNat
  nBits _ := 0

theorem lineIndex_linked : lineIndex.Linked [0, 1, 2] := by
  constructor
  · intro i b hb
    match i with
    | 0 | 1 | 2 => cases hb; rfl
  · intro i b hb
    match i with
    | 0 | 1 | 2 => cases hb; rfl

theorem getAncestor_follows_parents_line :
    ∃ a, lineIndex.getAncestor (lineIndex.buildSkips [0, 1, 2]) 2 0 = some a ∧
      lineIndex.ancestor 2 (some 2) = some a :=
  getAncestor_follows_parents lineIndex [0, 1, 2] lineIndex_linked 2 0 2 rfl (Nat.zero_le 2)

section OrderStatistic

variable {m : ℤ} {k : ℕ}

theorem le_getElem_iff_countP {s : List ℤ} (hs : s.Pairwise (· ≤ ·)) (hk : k < s.length) :
    m ≤ s[k] ↔ s.length ≤ k + s.countP (m ≤ ·) := by
  induction s generalizing k with
  | nil => exact absurd hk (Nat.not_lt_zero k)
  | cons a s ih =>
    rw [pairwise_cons] at hs
    by_cases hm : m ≤ a
    · have hall : (a :: s).countP (m ≤ ·) = (a :: s).length := by
        rw [countP_eq_length]
        intro x hx
        rcases mem_cons.mp hx with rfl | hx
        · exact decide_eq_true hm
        · exact decide_eq_true (hm.trans (hs.1 x hx))
      rw [hall]
      refine iff_of_true ?_ (by omega)
      rcases mem_cons.mp (getElem_mem hk) with heq | hmem
      · rw [heq]
        exact hm
      · exact hm.trans (hs.1 _ hmem)
    · rw [countP_cons_of_neg (by simpa using hm), length_cons]
      cases k with
      | zero =>
        have hle := countP_le_length (p := fun x => decide (m ≤ x)) (l := s)
        exact iff_of_false hm (by omega)
      | succ k =>
        rw [getElem_cons_succ, ih hs.2 (Nat.lt_of_succ_lt_succ hk)]
        omega

theorem countP_le_countP_take (p : ℤ → Bool) (s : List ℤ) (n : ℕ) :
    s.countP p ≤ (s.take n).countP p + (s.length - n) := by
  have hdrop : (s.drop n).countP p ≤ (s.drop n).length := countP_le_length
  rw [length_drop] at hdrop
  conv_lhs => rw [← take_append_drop n s, countP_append]
  omega

end OrderStatistic

namespace HeaderIndex

variable {index : HeaderIndex} {b parent : UInt256}

theorem lineage_take (index : HeaderIndex) (n : ℕ) (b : Option UInt256) :
    (index.lineage (n + 1) b).take n = index.lineage n b := by
  induction n generalizing b with
  | zero => exact take_zero
  | succ n ih =>
    cases b with
    | none => rfl
    | some b => exact congrArg (cons b) (ih (index.pprev b))

def windowTimes (index : HeaderIndex) (b : UInt256) : List ℤ :=
  (index.lineage medianTimeSpan (some b)).map index.getTime

theorem le_getMedianTimePast_iff {m : ℤ} : m ≤ index.getMedianTimePast b ↔
    (index.windowTimes b).length ≤
      (index.windowTimes b).length / 2 + (index.windowTimes b).countP (m ≤ ·) := by
  have hperm := perm_insertionSort (· ≤ ·) (index.windowTimes b)
  have hlen := hperm.length_eq
  have hpos : 0 < (index.windowTimes b).length := Nat.succ_pos _
  rw [← hperm.countP_eq, ← hlen, ← le_getElem_iff_countP (pairwise_insertionSort _ _) (by omega),
    getElem_eq_getD 0]
  rfl

theorem windowTimes_child (hparent : index.pprev b = some parent) :
    index.windowTimes b = index.getTime b :: (index.windowTimes parent).take 10 := by
  rw [windowTimes, windowTimes, ← map_take, medianTimeSpan, lineage_take, lineage, hparent,
    map_cons]

end HeaderIndex

/-- The window loses at most one time, and the new one is late. -/
theorem getMedianTimePast_mono (index : HeaderIndex) (b parent : UInt256)
    (hparent : index.pprev b = some parent)
    (htime : index.getMedianTimePast parent < index.getTime b) :
    index.getMedianTimePast parent ≤ index.getMedianTimePast b := by
  have hold := HeaderIndex.le_getMedianTimePast_iff.mp (le_refl (index.getMedianTimePast parent))
  have hkept := countP_le_countP_take (index.getMedianTimePast parent ≤ ·)
    (index.windowTimes parent) 10
  have hlen : (index.windowTimes parent).length ≤ 11 := by
    rw [HeaderIndex.windowTimes, length_map]
    exact index.lineage_length_le 11 _
  rw [HeaderIndex.le_getMedianTimePast_iff, HeaderIndex.windowTimes_child hparent,
    countP_cons_of_pos (by simpa using htime.le), length_cons, length_take]
  omega

/-- Every second block is 400 seconds earlier than its parent. -/
def zigzagIndex : HeaderIndex where
  pprev b := if b = 0 then none else some (b - 1)
  nHeight b := b.toNat
  nTime b := .ofNat (600 * b.toNat + if b.toNat % 2 = 0 then 1000 else 0)
  nBits _ := 0

theorem getMedianTimePast_mono_zigzag :
    zigzagIndex.getTime 13 < zigzagIndex.getTime 12 ∧
      zigzagIndex.getMedianTimePast 12 ≤ zigzagIndex.getMedianTimePast 13 :=
  ⟨by decide, getMedianTimePast_mono zigzagIndex 13 12 rfl (by decide +kernel)⟩

end ZClassic
