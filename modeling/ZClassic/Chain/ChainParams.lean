import ZClassic.Consensus.Subsidy

/-!
# Chain parameters

The fields of `struct chain_params` that headers and blocks are checked with, and what depends on
the epoch of a height: branch id, Equihash parameters and block spacing (`lib/consensus`,
`lib/chain/src/chainparams.c`).
-/

namespace ZClassic

structure ChainParams where
  consensus : ConsensusParams
  hashGenesisBlock : UInt256
  powLimit : UInt256
  nPowAllowMinDifficultyBlocksAfterHeight : ℤ
  nPowAllowMinDifficultyEnabled : Bool
  scaleDifficultyAtUpgradeFork : Bool
  nPowAveragingWindow : ℕ
  nPowMaxAdjustDown : ℤ
  nPowMaxAdjustUp : ℤ
  nPreButtercupPowTargetSpacing : ℤ
  nPostButtercupPowTargetSpacing : ℤ
  nEquihashN : ℕ
  nEquihashK : ℕ
  fMineBlocksOnDemand : Bool
  /-- `checkpointData.entries`: height and hash, by height -/
  checkpoints : List (ℤ × UInt256)

def zclFinalityDepth : ℤ := 10

def UpgradeIndex.all : List UpgradeIndex :=
  [.baseSprout, .testdummy, .overwinter, .sapling, .bubbles, .diffadj, .buttercup]

/-- The last upgrade that is active. -/
def consensusCurrentEpoch (nHeight : ℤ) (params : ConsensusParams) : UpgradeIndex :=
  (UpgradeIndex.all.reverse.find? (consensusNetworkUpgradeActive params nHeight)).getD .baseSprout

def UpgradeIndex.nBranchId : UpgradeIndex → UInt32
  | .baseSprout => 0
  | .testdummy => 0x74736554
  | .overwinter => 0x5ba81b19
  | .sapling => 0x76b809bb
  | .bubbles => 0x821a451c
  | .diffadj => 0x930b540d
  | .buttercup => 0x930b540d

def consensusCurrentEpochBranchId (nHeight : ℤ) (params : ConsensusParams) : UInt32 :=
  (consensusCurrentEpoch nHeight params).nBranchId

/-- `EquihashUpgradeInfo[idx]`; zeros stand for the chain's default. -/
def UpgradeIndex.equihash : UpgradeIndex → ℕ × ℕ
  | .baseSprout | .testdummy | .overwinter | .sapling => (0, 0)
  | .bubbles | .diffadj | .buttercup => (192, 7)

section

variable (p : ChainParams) (nHeight : ℤ)

def chainParamsEquihashN (height : ℤ) : ℕ :=
  let n := (consensusCurrentEpoch height p.consensus).equihash.1
  if n = 0 then p.nEquihashN else n

def chainParamsEquihashK (height : ℤ) : ℕ :=
  let k := (consensusCurrentEpoch height p.consensus).equihash.2
  if k = 0 then p.nEquihashK else k

def consensusPowTargetSpacing : ℤ :=
  if consensusNetworkUpgradeActive p.consensus nHeight .buttercup then
    p.nPostButtercupPowTargetSpacing
  else p.nPreButtercupPowTargetSpacing

def consensusAveragingWindowTimespan : ℤ :=
  p.nPowAveragingWindow * consensusPowTargetSpacing p nHeight

def consensusMinActualTimespan : ℤ :=
  (consensusAveragingWindowTimespan p nHeight * (100 - p.nPowMaxAdjustUp)).tdiv 100

def consensusMaxActualTimespan : ℤ :=
  (consensusAveragingWindowTimespan p nHeight * (100 + p.nPowMaxAdjustDown)).tdiv 100

end

def checkpointCovers (p : ChainParams) (height : ℤ) : Bool :=
  match p.checkpoints.getLast? with
  | none => false
  | some entry => decide (height ≤ entry.1)

def regtestParams : ChainParams where
  consensus :=
    { nSubsidySlowStartInterval := 0
      nPreButtercupSubsidyHalvingInterval := 150
      nPostButtercupSubsidyHalvingInterval := 300
      nActivationHeight := fun
        | .baseSprout => 0
        | _ => networkUpgradeNoActivation }
  hashGenesisBlock := 0x0575f78ee8dc057deee78ef691876e3be29833aaee5e189bb0459c087451305a
  powLimit := 0x0f0f0f0f0f0f0f0f0f0f0f0f0f0f0f0f0f0f0f0f0f0f0f0f0f0f0f0f0f0f0f0f
  nPowAllowMinDifficultyBlocksAfterHeight := 0
  nPowAllowMinDifficultyEnabled := true
  scaleDifficultyAtUpgradeFork := false
  nPowAveragingWindow := 17
  nPowMaxAdjustDown := 0
  nPowMaxAdjustUp := 0
  nPreButtercupPowTargetSpacing := 150
  nPostButtercupPowTargetSpacing := 75
  nEquihashN := 48
  nEquihashK := 5
  fMineBlocksOnDemand := true
  checkpoints := [(0, 0x0575f78ee8dc057deee78ef691876e3be29833aaee5e189bb0459c087451305a)]

def testParams : ChainParams where
  consensus :=
    { nSubsidySlowStartInterval := 2
      nPreButtercupSubsidyHalvingInterval := 840000
      nPostButtercupSubsidyHalvingInterval := 1680000
      nActivationHeight := fun
        | .baseSprout => 0
        | .overwinter | .sapling => 20
        | .bubbles => 6350
        | .buttercup => 78856
        | .testdummy | .diffadj => networkUpgradeNoActivation }
  hashGenesisBlock := 0x03e1c4bb705c871bf9bfda3e74b7f8f86bff267993c215a89d5795e3708e5e1f
  powLimit := 0x07ffffffffffffffffffffffffffffffffffffffffffffffffffffffffffffff
  nPowAllowMinDifficultyBlocksAfterHeight := 299187
  nPowAllowMinDifficultyEnabled := true
  scaleDifficultyAtUpgradeFork := false
  nPowAveragingWindow := 17
  nPowMaxAdjustDown := 32
  nPowMaxAdjustUp := 16
  nPreButtercupPowTargetSpacing := 150
  nPostButtercupPowTargetSpacing := 75
  nEquihashN := 200
  nEquihashK := 9
  fMineBlocksOnDemand := false
  checkpoints := [(0, 0x03e1c4bb705c871bf9bfda3e74b7f8f86bff267993c215a89d5795e3708e5e1f)]

end ZClassic
