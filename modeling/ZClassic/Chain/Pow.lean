import Mathlib.Data.List.Sort
import ZClassic.Chain.ChainParams
import ZClassic.Primitives.BlockHeader

/-!
# Proof of work

Compact targets (`lib/core/src/arith_uint256.c`), the difficulty arithmetic of
`domain/consensus/src/pow.c` and `verify.c`, and the retargeting walk of `lib/chain/src/pow.c`.
-/

namespace ZClassic

structure CompactTarget where
  target : UInt256
  negative : Bool
  overflow : Bool

def arithUint256SetCompact (compact : UInt32) : CompactTarget :=
  let size := (compact >>> 24).toNat
  let mantissa := (compact &&& 0x007fffff).toNat
  let word := if size ≤ 3 then mantissa >>> (8 * (3 - size)) else mantissa
  { target := if size ≤ 3 then BitVec.ofNat 256 word
      else BitVec.ofNat 256 word <<< (8 * (size - 3))
    negative := word != 0 && compact &&& 0x00800000 != 0
    overflow := word != 0 && (decide (34 < size) || (decide (0xff < word) && decide (33 < size)) ||
      (decide (0xffff < word) && decide (32 < size))) }

def arithUint256Bits (a : UInt256) : ℕ := if a = 0 then 0 else a.toNat.log2 + 1

/-- `arith_uint256_get_compact`, which no caller asks for a negative target. -/
def arithUint256GetCompact (a : UInt256) : UInt32 :=
  let size := (arithUint256Bits a + 7) / 8
  let compact : UInt32 :=
    if size ≤ 3 then .ofNat (a.toNat <<< (8 * (3 - size)))
    else .ofNat (a.toNat >>> (8 * (size - 3)))
  let (compact, size) := if compact &&& 0x00800000 != 0 then (compact >>> 8, size + 1)
    else (compact, size)
  compact ||| (UInt32.ofNat size <<< 24)

def CompactTarget.unusable (t : CompactTarget) : Bool := t.negative || t.overflow || t.target == 0

def checkProofOfWork (hash : UInt256) (nBits : UInt32) (p : ChainParams) : Bool :=
  let t := arithUint256SetCompact nBits
  !t.unusable && decide (t.target ≤ p.powLimit) && decide (hash ≤ t.target)

/-- `GetBlockProof`: `2^256 / (target + 1)` without the 257th bit, and zero for an unusable
target. -/
def getBlockProof (nBits : UInt32) : UInt256 :=
  let t := arithUint256SetCompact nBits
  if t.unusable then 0 else ~~~t.target / (t.target + 1) + 1

def increaseDifficultyBy (nBits : UInt32) (multiplier : ℕ) (p : ChainParams) : UInt32 :=
  if multiplier = 0 then nBits
  else
    let target := (arithUint256SetCompact nBits).target / BitVec.ofNat 256 multiplier
    arithUint256GetCompact (if p.powLimit < target then p.powLimit else target)

def arithOfInt64 (x : ℤ) : UInt256 := BitVec.ofNat 256 (x % 2 ^ 64).toNat

def calculateNextWorkRequired (bnAvg : UInt256) (nLastBlockTime nFirstBlockTime : ℤ)
    (p : ChainParams) (nextHeight : ℤ) : UInt32 :=
  let avgTimespan := consensusAveragingWindowTimespan p nextHeight
  let minTimespan := consensusMinActualTimespan p nextHeight
  let maxTimespan := consensusMaxActualTimespan p nextHeight
  let actual := avgTimespan + (nLastBlockTime - nFirstBlockTime - avgTimespan).tdiv 4
  let actual := if actual < minTimespan then minTimespan else actual
  let actual := if maxTimespan < actual then maxTimespan else actual
  let bnNew := bnAvg / arithOfInt64 avgTimespan * arithOfInt64 actual
  arithUint256GetCompact (if p.powLimit < bnNew then p.powLimit else bnNew)

structure HeaderIndex where
  pprev : UInt256 → Option UInt256
  nHeight : UInt256 → ℤ
  nTime : UInt256 → UInt32
  nBits : UInt256 → UInt32

namespace HeaderIndex

variable (index : HeaderIndex)

def lineage : ℕ → Option UInt256 → List UInt256
  | 0, _ => []
  | _ + 1, none => []
  | n + 1, some b => b :: lineage n (index.pprev b)

def ancestor : ℕ → Option UInt256 → Option UInt256
  | 0, b => b
  | n + 1, b => ancestor n (b.bind index.pprev)

theorem lineage_length_le (n : ℕ) (b : Option UInt256) : (index.lineage n b).length ≤ n := by
  induction n generalizing b with
  | zero => exact Nat.le_refl 0
  | succ n ih =>
    cases b with
    | none => exact Nat.zero_le _
    | some b => exact Nat.succ_le_succ (ih (index.pprev b))

def getTime (b : UInt256) : ℤ := (index.nTime b).toNat

def medianTimeSpan : ℕ := 11

def getMedianTimePast (b : UInt256) : ℤ :=
  let times := ((index.lineage medianTimeSpan (some b)).map index.getTime).insertionSort (· ≤ ·)
  times.getD (times.length / 2) 0

end HeaderIndex

section

variable (p : ChainParams) (index : HeaderIndex) (last : UInt256)

def upgradeForkWork (pblock : BlockHeader) : Option UInt32 :=
  let nHeight := index.nHeight last + 1
  let nProofOfWorkLimit := arithUint256GetCompact p.powLimit
  let inWindow (idx : UpgradeIndex) : Bool :=
    decide (p.consensus.nActivationHeight idx ≤ nHeight) &&
      decide (nHeight < p.consensus.nActivationHeight idx + p.nPowAveragingWindow)
  let spacing := consensusPowTargetSpacing p nHeight
  let gap := blockHeaderGetTime pblock - index.getTime last
  if p.scaleDifficultyAtUpgradeFork && (inWindow .diffadj || inWindow .buttercup) then
    if spacing * 12 < gap then some nProofOfWorkLimit
    else if spacing * 6 < gap then some (increaseDifficultyBy nProofOfWorkLimit 128 p)
    else if spacing * 2 < gap then some (increaseDifficultyBy nProofOfWorkLimit 256 p)
    else none
  else none

def minDifficultyWork (pblock : BlockHeader) : Option UInt32 :=
  if p.nPowAllowMinDifficultyEnabled &&
      decide (p.nPowAllowMinDifficultyBlocksAfterHeight ≤ index.nHeight last) &&
      decide (consensusPowTargetSpacing p (index.nHeight last + 1) * 6 <
        blockHeaderGetTime pblock - index.getTime last)
  then some (arithUint256GetCompact p.powLimit)
  else none

/-- The average over the window; too short a chain asks for the least work. -/
def averagedWork : UInt32 :=
  let nProofOfWorkLimit := arithUint256GetCompact p.powLimit
  if p.nPowAveragingWindow = 0 then nProofOfWorkLimit
  else match index.ancestor p.nPowAveragingWindow (some last) with
    | none => nProofOfWorkLimit
    | some first =>
      let bnTot := ((index.lineage p.nPowAveragingWindow (some last)).map fun b =>
        (arithUint256SetCompact (index.nBits b)).target).foldl (· + ·) 0
      calculateNextWorkRequired (bnTot / BitVec.ofNat 256 p.nPowAveragingWindow)
        (index.getMedianTimePast last) (index.getMedianTimePast first) p (index.nHeight last + 1)

end

def getNextWorkRequired (p : ChainParams) (index : HeaderIndex) (pindexLast : Option UInt256)
    (pblock : BlockHeader) : UInt32 :=
  match pindexLast with
  | none => arithUint256GetCompact p.powLimit
  | some last =>
    (upgradeForkWork p index last pblock).getD
      ((minDifficultyWork p index last pblock).getD (averagedWork p index last))

example : arithUint256GetCompact regtestParams.powLimit = 0x200f0f0f := by decide

example : (arithUint256SetCompact 0x200f0f0f).target =
    0x0f0f0f0000000000000000000000000000000000000000000000000000000000 := by decide

end ZClassic
