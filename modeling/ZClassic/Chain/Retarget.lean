import ZClassic.Chain.CompactTarget

/-!
# The retarget is exact

The difficulty arithmetic on 256-bit numbers against the same arithmetic on natural numbers.
-/

namespace ZClassic

open List Nat

def windowTargets (p : ChainParams) (index : HeaderIndex) (last : UInt256) : List UInt256 :=
  (index.lineage p.nPowAveragingWindow (some last)).map fun b =>
    (arithUint256SetCompact (index.nBits b)).target

def averageTarget (p : ChainParams) (index : HeaderIndex) (last : UInt256) : ℕ :=
  ((windowTargets p index last).map BitVec.toNat).sum / p.nPowAveragingWindow

def clampedTimespan (p : ChainParams) (nLastBlockTime nFirstBlockTime nextHeight : ℤ) : ℤ :=
  let avgTimespan := consensusAveragingWindowTimespan p nextHeight
  let actual := avgTimespan + (nLastBlockTime - nFirstBlockTime - avgTimespan).tdiv 4
  let actual :=
    if actual < consensusMinActualTimespan p nextHeight then consensusMinActualTimespan p nextHeight
    else actual
  if consensusMaxActualTimespan p nextHeight < actual then consensusMaxActualTimespan p nextHeight
  else actual

/-- The product before it is limited, without any bound on its size. -/
def scaledTarget (p : ChainParams) (avg : ℕ) (nLastBlockTime nFirstBlockTime nextHeight : ℤ) : ℕ :=
  avg / (consensusAveragingWindowTimespan p nextHeight).toNat *
    (clampedTimespan p nLastBlockTime nFirstBlockTime nextHeight).toNat

/-- Parameters under which the arithmetic at a height is exact. -/
structure RetargetBounds (p : ChainParams) (nextHeight : ℤ) : Prop where
  window_pos : 1 ≤ p.nPowAveragingWindow
  sum_fits : p.nPowAveragingWindow * p.powLimit.toNat < 2 ^ 256
  avg_pos : 0 < consensusAveragingWindowTimespan p nextHeight
  min_pos : 0 < consensusMinActualTimespan p nextHeight
  max_pos : 0 < consensusMaxActualTimespan p nextHeight
  avg_lt : consensusAveragingWindowTimespan p nextHeight < 2 ^ 63
  -- both products are `int64_t` before they are divided by 100
  min_fits : consensusAveragingWindowTimespan p nextHeight * (100 - p.nPowMaxAdjustUp) < 2 ^ 63
  max_fits : consensusAveragingWindowTimespan p nextHeight * (100 + p.nPowMaxAdjustDown) < 2 ^ 63
  product_fits : p.powLimit.toNat / (consensusAveragingWindowTimespan p nextHeight).toNat *
    (consensusMaxActualTimespan p nextHeight).toNat < 2 ^ 256

section Exact

variable {p : ChainParams} {nextHeight : ℤ}

theorem arithOfInt64_toNat {x : ℤ} (h₀ : 0 ≤ x) (h : x < 2 ^ 63) :
    (arithOfInt64 x).toNat = x.toNat := by
  rw [arithOfInt64, BitVec.toNat_ofNat, Int.emod_eq_of_lt h₀ (by omega), mod_eq_of_lt]
  omega

theorem clampedTimespan_le (p : ChainParams) (nLast nFirst nextHeight : ℤ) :
    clampedTimespan p nLast nFirst nextHeight ≤ consensusMaxActualTimespan p nextHeight := by
  unfold clampedTimespan
  dsimp only
  split_ifs <;> omega

theorem toNat_ite_lt (a b : UInt256) : (if a < b then a else b).toNat = min a.toNat b.toNat := by
  by_cases hlt : a < b
  · rw [if_pos hlt, Nat.min_eq_left (Nat.le_of_lt hlt)]
  · rw [if_neg hlt, Nat.min_eq_right (Nat.not_lt.mp hlt)]

section

variable (h : RetargetBounds p nextHeight)

include h

theorem RetargetBounds.window_lt : p.nPowAveragingWindow < 2 ^ 63 := by
  have hpos := h.avg_pos
  have hlt := h.avg_lt
  unfold consensusAveragingWindowTimespan at hpos hlt
  have hspacing : 0 < consensusPowTargetSpacing p nextHeight := by
    by_contra hle
    have := Int.mul_nonpos_of_nonneg_of_nonpos (Int.natCast_nonneg p.nPowAveragingWindow)
      (Int.not_lt.mp hle)
    omega
  have hle : (p.nPowAveragingWindow : ℤ) ≤
      p.nPowAveragingWindow * consensusPowTargetSpacing p nextHeight :=
    le_mul_of_one_le_right (Int.natCast_nonneg _) hspacing
  omega

theorem RetargetBounds.max_lt : consensusMaxActualTimespan p nextHeight < 2 ^ 63 :=
  (Int.tdiv_le_tdiv (by decide) (Int.le_sub_one_of_lt h.max_fits)).trans_lt (by decide)

theorem clampedTimespan_pos (nLast nFirst : ℤ) :
    0 < clampedTimespan p nLast nFirst nextHeight := by
  have hmin := h.min_pos
  have hmax := h.max_pos
  unfold clampedTimespan
  dsimp only
  split_ifs <;> omega

theorem scaledTarget_lt {avg : ℕ} (havg : avg ≤ p.powLimit.toNat)
    (nLast nFirst : ℤ) : scaledTarget p avg nLast nFirst nextHeight < 2 ^ 256 := by
  have hclamp := clampedTimespan_le p nLast nFirst nextHeight
  exact lt_of_le_of_lt
    (Nat.mul_le_mul (Nat.div_le_div_right havg) (Int.toNat_le_toNat hclamp)) h.product_fits

theorem calculateNextWorkRequired_eq {bnAvg : UInt256} (havg : bnAvg.toNat ≤ p.powLimit.toNat)
    (nLast nFirst : ℤ) :
    ∃ t : UInt256, calculateNextWorkRequired bnAvg nLast nFirst p nextHeight =
      arithUint256GetCompact t ∧
      t.toNat = min p.powLimit.toNat (scaledTarget p bnAvg.toNat nLast nFirst nextHeight) := by
  have hpos := clampedTimespan_pos h nLast nFirst
  have hclamp := clampedTimespan_le p nLast nFirst nextHeight
  have hmax := h.max_lt
  refine ⟨_, rfl, ?_⟩
  rw [toNat_ite_lt]
  congr 1
  change (bnAvg / arithOfInt64 (consensusAveragingWindowTimespan p nextHeight) *
    arithOfInt64 (clampedTimespan p nLast nFirst nextHeight)).toNat = _
  rw [BitVec.toNat_mul, BitVec.toNat_udiv, arithOfInt64_toNat h.avg_pos.le h.avg_lt,
    arithOfInt64_toNat hpos.le (by omega)]
  exact mod_eq_of_lt (scaledTarget_lt h havg nLast nFirst)

theorem scaledTarget_pos {avg : ℕ}
    (havg : (consensusAveragingWindowTimespan p nextHeight).toNat ≤ avg) (nLast nFirst : ℤ) :
    0 < scaledTarget p avg nLast nFirst nextHeight := by
  have hspan := h.avg_pos
  have hclamp := clampedTimespan_pos h nLast nFirst
  apply Nat.mul_pos
  · exact Nat.div_pos havg (by omega)
  · omega

end

theorem foldl_add_toNat (xs : List UInt256) (acc : UInt256) :
    (xs.foldl (· + ·) acc).toNat = (acc.toNat + (xs.map BitVec.toNat).sum) % 2 ^ 256 := by
  induction xs generalizing acc with
  | nil => simp [mod_eq_of_lt acc.isLt]
  | cons x xs ih =>
    rw [foldl_cons, ih, BitVec.toNat_add, map_cons, sum_cons, mod_add_mod, Nat.add_assoc]

variable {index : HeaderIndex} {last first : UInt256}

/-- A branch asks for a target within the limit, which is not zero unless the limit is small. -/
def EasedBits (p : ChainParams) (bits : UInt32) : Prop :=
  ∃ t : UInt256, bits = arithUint256GetCompact t ∧ t ≤ p.powLimit ∧
    (256 ≤ p.powLimit.toNat → 0 < t.toNat)

theorem easedBits_powLimit (p : ChainParams) : EasedBits p (arithUint256GetCompact p.powLimit) :=
  ⟨p.powLimit, rfl, Nat.le_refl _, fun h => lt_of_lt_of_le (by decide) h⟩

theorem easedBits_increaseDifficultyBy (p : ChainParams) {multiplier : ℕ} (h₀ : 0 < multiplier)
    (h : multiplier ≤ 256) :
    EasedBits p (increaseDifficultyBy (arithUint256GetCompact p.powLimit) multiplier p) := by
  have htrunc := floatTruncate_le p.powLimit.toNat
  have htarget : (BitVec.ofNat 256 (floatTruncate p.powLimit.toNat) /
      BitVec.ofNat 256 multiplier).toNat = floatTruncate p.powLimit.toNat / multiplier := by
    rw [BitVec.toNat_udiv, BitVec.toNat_ofNat, BitVec.toNat_ofNat, mod_eq_of_lt (by omega),
      mod_eq_of_lt (by omega)]
  refine ⟨_, by rw [increaseDifficultyBy, if_neg (by omega), setCompact_getCompact], ?_, ?_⟩
  · rw [BitVec.le_def, toNat_ite_lt]
    exact Nat.min_le_left ..
  · intro hlarge
    have hkept : 2 ^ 8 ≤ floatTruncate p.powLimit.toNat := two_pow_le_floatTruncate hlarge
    rw [toNat_ite_lt, htarget]
    have hone : 1 ≤ floatTruncate p.powLimit.toNat / multiplier :=
      (Nat.le_div_iff_mul_le h₀).mpr (by omega)
    omega

variable {bits : UInt32} {pblock : BlockHeader}

theorem upgradeForkWork_eased
    (h : upgradeForkWork p index last pblock = some bits) : EasedBits p bits := by
  unfold upgradeForkWork at h
  dsimp only at h
  split_ifs at h
  · exact Option.some.inj h ▸ easedBits_powLimit p
  · exact Option.some.inj h ▸ easedBits_increaseDifficultyBy p (by omega) (by omega)
  · exact Option.some.inj h ▸ easedBits_increaseDifficultyBy p (by omega) (by omega)

theorem minDifficultyWork_eq (h : minDifficultyWork p index last pblock = some bits) :
    bits = arithUint256GetCompact p.powLimit := by
  unfold minDifficultyWork at h
  split_ifs at h
  exact (Option.some.inj h).symm

theorem sum_le_of_forall_le {xs : List UInt256} {bound n : ℕ} (hlen : xs.length ≤ n)
    (h : ∀ x ∈ xs, x.toNat ≤ bound) : (xs.map BitVec.toNat).sum ≤ n * bound := by
  have hsum := sum_le_card_nsmul (xs.map BitVec.toNat) bound fun y hy => by
    obtain ⟨x, hx, rfl⟩ := mem_map.mp hy
    exact h x hx
  rw [length_map] at hsum
  exact hsum.trans (Nat.mul_le_mul_right bound hlen)

theorem HeaderIndex.lineage_length (index : HeaderIndex) {n : ℕ} {b : Option UInt256}
    (h : (index.ancestor n b).isSome) : (index.lineage n b).length = n := by
  induction n generalizing b with
  | zero => rfl
  | succ n ih =>
    cases b with
    | none =>
      -- there is no ancestor to walk to from nothing
      have hnone : ∀ n, index.ancestor n none = none := by
        intro n
        induction n with
        | zero => rfl
        | succ n ih => exact ih
      rw [hnone] at h
      simp at h
    | some b => exact congrArg succ (ih h)

theorem averageTarget_ge (h : RetargetBounds p nextHeight)
    (hlong : (windowTargets p index last).length = p.nPowAveragingWindow) {bound : ℕ}
    (htargets : ∀ t ∈ windowTargets p index last, bound ≤ t.toNat) :
    bound ≤ averageTarget p index last := by
  have hsum := card_nsmul_le_sum ((windowTargets p index last).map BitVec.toNat) bound
    fun y hy => by
      obtain ⟨t, ht, rfl⟩ := mem_map.mp hy
      exact htargets t ht
  rw [length_map, hlong] at hsum
  exact (Nat.le_div_iff_mul_le h.window_pos).mpr ((Nat.mul_comm ..).trans_le hsum)

section

variable (htargets : ∀ t ∈ windowTargets p index last, t ≤ p.powLimit)

include htargets

theorem windowTargets_sum_le (k : ℕ) :
    (((windowTargets p index last).take k).map BitVec.toNat).sum ≤
      p.nPowAveragingWindow * p.powLimit.toNat := by
  apply sum_le_of_forall_le
  · rw [length_take, windowTargets, length_map]
    exact (Nat.min_le_right ..).trans (index.lineage_length_le ..)
  · intro t ht
    exact htargets t (mem_of_mem_take ht)

theorem averageTarget_le (h : RetargetBounds p nextHeight) :
    averageTarget p index last ≤ p.powLimit.toNat := by
  have hsum := windowTargets_sum_le htargets (windowTargets p index last).length
  rw [take_length] at hsum
  exact (Nat.div_le_div_right hsum).trans_eq (Nat.mul_div_cancel_left _ h.window_pos)

variable (h : RetargetBounds p (index.nHeight last + 1))
  (hfirst : index.ancestor p.nPowAveragingWindow (some last) = some first)

include h hfirst

theorem averagedWork_eq :
    ∃ t : UInt256, averagedWork p index last = arithUint256GetCompact t ∧
      t.toNat = min p.powLimit.toNat (scaledTarget p (averageTarget p index last)
        (index.getMedianTimePast last) (index.getMedianTimePast first)
        (index.nHeight last + 1)) := by
  have hwindow := h.window_pos
  have hsum := windowTargets_sum_le htargets (windowTargets p index last).length
  rw [take_length] at hsum
  have hwidth : p.nPowAveragingWindow < 2 ^ 256 := h.window_lt.trans (by decide)
  have hbn : ((windowTargets p index last).foldl (· + ·) 0 /
      BitVec.ofNat 256 p.nPowAveragingWindow).toNat = averageTarget p index last := by
    rw [BitVec.toNat_udiv, foldl_add_toNat, BitVec.toNat_ofNat, mod_eq_of_lt hwidth,
      averageTarget]
    congr 1
    have hfits := h.sum_fits
    change (0 + _) % 2 ^ 256 = _
    rw [Nat.zero_add, mod_eq_of_lt (by omega)]
  have hcalc := calculateNextWorkRequired_eq h (hbn ▸ averageTarget_le htargets h)
    (index.getMedianTimePast last) (index.getMedianTimePast first)
  rw [hbn] at hcalc
  rw [averagedWork, if_neg (by omega), hfirst]
  exact hcalc

theorem getNextWorkRequired_eq (pblock : BlockHeader) :
    ∃ t : UInt256, getNextWorkRequired p index (some last) pblock = arithUint256GetCompact t ∧
      ((upgradeForkWork p index last pblock ≠ none ∧ t ≤ p.powLimit ∧
          (256 ≤ p.powLimit.toNat → 0 < t.toNat)) ∨
        (upgradeForkWork p index last pblock = none ∧
          minDifficultyWork p index last pblock ≠ none ∧ t = p.powLimit) ∨
        (upgradeForkWork p index last pblock = none ∧
          minDifficultyWork p index last pblock = none ∧
          t.toNat = min p.powLimit.toNat (scaledTarget p (averageTarget p index last)
            (index.getMedianTimePast last) (index.getMedianTimePast first)
            (index.nHeight last + 1)))) := by
  have hdef : getNextWorkRequired p index (some last) pblock =
      (upgradeForkWork p index last pblock).getD
        ((minDifficultyWork p index last pblock).getD (averagedWork p index last)) := rfl
  rw [hdef]
  cases hfork : upgradeForkWork p index last pblock with
  | some bits =>
    obtain ⟨t, rfl, hle, hpos⟩ := upgradeForkWork_eased hfork
    exact ⟨t, rfl, .inl ⟨by simp, hle, hpos⟩⟩
  | none =>
    cases hmin : minDifficultyWork p index last pblock with
    | some bits =>
      exact ⟨p.powLimit, minDifficultyWork_eq hmin, .inr (.inl ⟨rfl, by simp, rfl⟩)⟩
    | none =>
      obtain ⟨t, heq, ht⟩ := averagedWork_eq htargets h hfirst
      exact ⟨t, heq, .inr (.inr ⟨rfl, rfl, ht⟩)⟩

end

end Exact

/-- The required work is the arithmetic on natural numbers: nothing wraps, and the target is within
the limit and, in the retarget branch, the scaled average cut to a compact number. -/
theorem getNextWorkRequired_exact (p : ChainParams) (index : HeaderIndex) (last first : UInt256)
    (pblock : BlockHeader) (hbounds : RetargetBounds p (index.nHeight last + 1))
    (hfirst : index.ancestor p.nPowAveragingWindow (some last) = some first)
    (hbits : ∀ b ∈ index.lineage p.nPowAveragingWindow (some last),
      (arithUint256SetCompact (index.nBits b)).negative = false ∧
      (arithUint256SetCompact (index.nBits b)).overflow = false ∧
      (arithUint256SetCompact (index.nBits b)).target ≤ p.powLimit) :
    let scaled := scaledTarget p (averageTarget p index last) (index.getMedianTimePast last)
      (index.getMedianTimePast first) (index.nHeight last + 1)
    let required := arithUint256SetCompact (getNextWorkRequired p index (some last) pblock)
    -- no shift, sum or product wraps
    (∀ b ∈ index.lineage p.nPowAveragingWindow (some last),
      (arithUint256SetCompact (index.nBits b)).target.toNat =
        floatValue (compactMantissa (index.nBits b)) (compactSize (index.nBits b))) ∧
    (∀ k, (((windowTargets p index last).take k).map BitVec.toNat).sum < 2 ^ 256) ∧
    scaled < 2 ^ 256 ∧
    required.negative = false ∧ required.overflow = false ∧ required.target ≤ p.powLimit ∧
    (upgradeForkWork p index last pblock = none → minDifficultyWork p index last pblock = none →
      required.target.toNat = floatTruncate (min p.powLimit.toNat scaled)) ∧
    ((∀ t ∈ windowTargets p index last,
        (consensusAveragingWindowTimespan p (index.nHeight last + 1)).toNat ≤ t.toNat) →
      (256 ≤ p.powLimit.toNat ∨ upgradeForkWork p index last pblock = none) →
      0 < required.target.toNat) := by
  have htargets : ∀ t ∈ windowTargets p index last, t ≤ p.powLimit := by
    intro t ht
    obtain ⟨b, hb, rfl⟩ := mem_map.mp ht
    exact (hbits b hb).2.2
  have hlen : (windowTargets p index last).length = p.nPowAveragingWindow := by
    rw [windowTargets, length_map, index.lineage_length (by rw [hfirst]; rfl)]
  obtain ⟨t, heq, hbranch⟩ := getNextWorkRequired_eq htargets hbounds hfirst pblock
  have hle : t.toNat ≤ p.powLimit.toNat := by
    rcases hbranch with ⟨-, h, -⟩ | ⟨-, -, rfl⟩ | ⟨-, -, h⟩
    · exact h
    · exact le_rfl
    · exact h.trans_le (Nat.min_le_left ..)
  have htrunc := floatTruncate_le t.toNat
  have hrequired : (BitVec.ofNat 256 (floatTruncate t.toNat)).toNat = floatTruncate t.toNat := by
    rw [BitVec.toNat_ofNat, mod_eq_of_lt (by omega)]
  rw [heq, setCompact_getCompact]
  refine ⟨fun b hb => setCompact_toNat (hbits b hb).2.1,
    fun k => lt_of_le_of_lt (windowTargets_sum_le htargets k) hbounds.sum_fits,
    scaledTarget_lt hbounds (averageTarget_le htargets hbounds) _ _, rfl, rfl, ?_, ?_, ?_⟩
  · rw [BitVec.le_def, hrequired]
    omega
  · intro hfork hmin
    rcases hbranch with ⟨h, -⟩ | ⟨-, h, -⟩ | ⟨-, -, h⟩
    · exact absurd hfork h
    · exact absurd hmin h
    · rw [hrequired, h]
  · intro hlarge hcase
    have havg := averageTarget_ge hbounds hlen hlarge
    have hscaled := scaledTarget_pos hbounds havg (index.getMedianTimePast last)
      (index.getMedianTimePast first)
    have hspan := hbounds.avg_pos
    have hpos : 0 < p.powLimit.toNat := by
      have := averageTarget_le htargets hbounds
      omega
    rw [hrequired]
    apply floatTruncate_pos
    rcases hbranch with ⟨hfork, -, h⟩ | ⟨-, -, rfl⟩ | ⟨-, -, h⟩
    · exact h (hcase.resolve_right hfork)
    · exact hpos
    · omega

/-- Right after an upgrade the limit is divided by up to 256, which takes a small one to zero. -/
example : increaseDifficultyBy (arithUint256GetCompact 255) 256
    { regtestParams with powLimit := 255 } = 0 := by decide +kernel

/-- A network with a window of one block, where the timespan may grow by `nPowMaxAdjustDown`. -/
def oneBlockParams (nPowMaxAdjustDown : ℤ) : ChainParams :=
  { regtestParams with
    powLimit := 0x7fffff <<< 232
    nPowAllowMinDifficultyEnabled := false
    nPowAveragingWindow := 1
    nPowMaxAdjustDown
    nPreButtercupPowTargetSpacing := 128 }

def slowChain : HeaderIndex where
  pprev b := if b = 2 then some 1 else none
  nHeight b := b.toNat
  nTime b := if b = 2 then 1000000 else 0
  nBits _ := 0x20200000

theorem oneBlockParams_bounds : RetargetBounds (oneBlockParams 32) 3 := by
  constructor <;> decide +kernel

theorem slowChain_bits (nPowMaxAdjustDown : ℤ) :
    ∀ b ∈ slowChain.lineage (oneBlockParams nPowMaxAdjustDown).nPowAveragingWindow (some 2),
      (arithUint256SetCompact (slowChain.nBits b)).negative = false ∧
      (arithUint256SetCompact (slowChain.nBits b)).overflow = false ∧
      (arithUint256SetCompact (slowChain.nBits b)).target ≤
        (oneBlockParams nPowMaxAdjustDown).powLimit := by
  intro b _
  change (arithUint256SetCompact 0x20200000).negative = false ∧
    (arithUint256SetCompact 0x20200000).overflow = false ∧
    (arithUint256SetCompact 0x20200000).target ≤ 0x7fffff <<< 232
  decide +kernel

theorem getNextWorkRequired_exact_slowChain :
    (arithUint256SetCompact
      (getNextWorkRequired (oneBlockParams 32) slowChain (some 2) {})).target.toNat =
      floatTruncate (min (oneBlockParams 32).powLimit.toNat
        (scaledTarget (oneBlockParams 32) (averageTarget (oneBlockParams 32) slowChain 2)
          (slowChain.getMedianTimePast 2) (slowChain.getMedianTimePast 1) 3)) :=
  (getNextWorkRequired_exact (oneBlockParams 32) slowChain 2 1 {} oneBlockParams_bounds rfl
    (slowChain_bits 32)).2.2.2.2.2.2.1 rfl rfl

/-- If one step may grow the timespan eightfold, the product is a multiple of `2 ^ 256` here, and
the node asks for a target of zero. -/
theorem oneBlockParams_wraps :
    (1 ≤ (oneBlockParams 700).nPowAveragingWindow ∧
      (oneBlockParams 700).nPowAveragingWindow * (oneBlockParams 700).powLimit.toNat < 2 ^ 256 ∧
      4 * (oneBlockParams 700).powLimit.toNat < 3 * 2 ^ 256 ∧
      0 < consensusMinActualTimespan (oneBlockParams 700) 3 ∧
      0 < consensusAveragingWindowTimespan (oneBlockParams 700) 3 ∧
      0 < consensusMaxActualTimespan (oneBlockParams 700) 3) ∧
    (slowChain.ancestor (oneBlockParams 700).nPowAveragingWindow (some 2) = some 1 ∧
      ∀ b ∈ slowChain.lineage (oneBlockParams 700).nPowAveragingWindow (some 2),
        (arithUint256SetCompact (slowChain.nBits b)).negative = false ∧
        (arithUint256SetCompact (slowChain.nBits b)).overflow = false ∧
        (arithUint256SetCompact (slowChain.nBits b)).target ≤ (oneBlockParams 700).powLimit) ∧
    scaledTarget (oneBlockParams 700) (averageTarget (oneBlockParams 700) slowChain 2)
      (slowChain.getMedianTimePast 2) (slowChain.getMedianTimePast 1) 3 = 2 ^ 256 ∧
    getNextWorkRequired (oneBlockParams 700) slowChain (some 2) {} = 0 ∧
    (arithUint256SetCompact 0).target = 0 := by
  refine ⟨by decide +kernel, ⟨rfl, slowChain_bits 700⟩, by decide +kernel, by decide +kernel,
    by decide +kernel⟩

end ZClassic
