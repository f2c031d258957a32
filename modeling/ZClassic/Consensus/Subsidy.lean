import ZClassic.Primitives.Transaction

/-!
# Block subsidy

`get_block_subsidy` with the activation schedule it reads (`domain/consensus/src/subsidy.c`,
`lib/consensus/src/params.c`).
-/

namespace ZClassic

inductive UpgradeIndex where
  | baseSprout
  | testdummy
  | overwinter
  | sapling
  | bubbles
  | diffadj
  | buttercup
  deriving DecidableEq

inductive UpgradeState where
  | disabled
  | pending
  | active
  deriving DecidableEq

structure ConsensusParams where
  nSubsidySlowStartInterval : ℤ
  nPreButtercupSubsidyHalvingInterval : ℤ
  nPostButtercupSubsidyHalvingInterval : ℤ
  /-- `vUpgrades[idx].nActivationHeight` -/
  nActivationHeight : UpgradeIndex → ℤ

def networkUpgradeNoActivation : ℤ := -1

def consensusUpgradeState (nHeight : ℤ) (params : ConsensusParams) (idx : UpgradeIndex) :
    UpgradeState :=
  let activation := params.nActivationHeight idx
  if activation = networkUpgradeNoActivation then .disabled
  else if activation ≤ nHeight then .active
  else .pending

def consensusNetworkUpgradeActive (params : ConsensusParams) (nHeight : ℤ) (idx : UpgradeIndex) :
    Bool :=
  consensusUpgradeState nHeight params idx == .active

def consensusSubsidySlowStartShift (params : ConsensusParams) : ℤ :=
  params.nSubsidySlowStartInterval.tdiv 2

def consensusHalving (params : ConsensusParams) (nHeight : ℤ) : ℤ :=
  if consensusNetworkUpgradeActive params nHeight .buttercup then
    (nHeight - consensusSubsidySlowStartShift params
      - params.nActivationHeight .buttercup).tdiv params.nPostButtercupSubsidyHalvingInterval + 3
  else
    (nHeight - consensusSubsidySlowStartShift params).tdiv
      params.nPreButtercupSubsidyHalvingInterval

def buttercupPowTargetSpacingRatio : ℤ := 2

/-- A negative height fails in the domain function and the wrapper returns 0. -/
def getBlockSubsidy (nHeight : Int32) (params : ConsensusParams) : Int64 :=
  let h := nHeight.toInt
  let full : ℤ := 1250000000
  let interval := params.nSubsidySlowStartInterval
  if h < 0 then 0
  else if h < interval.tdiv 2 then .ofInt (full.tdiv interval * h)
  else if h < interval then .ofInt (full.tdiv interval * (h + 1))
  else
    let halvings := consensusHalving params h
    if 64 ≤ halvings then 0
    else if consensusNetworkUpgradeActive params h .buttercup then
      .ofInt (full.tdiv buttercupPowTargetSpacingRatio / 2 ^ halvings.toNat)
    else .ofInt (full / 2 ^ halvings.toNat)

/-- The main network's schedule (`init_main_params`). -/
def mainParams : ConsensusParams where
  nSubsidySlowStartInterval := 2
  nPreButtercupSubsidyHalvingInterval := 840000
  nPostButtercupSubsidyHalvingInterval := 1680000
  nActivationHeight
    | .baseSprout => 0
    | .testdummy => networkUpgradeNoActivation
    | .overwinter => 476969
    | .sapling => 476969
    | .bubbles => 585318
    | .diffadj => 585322
    | .buttercup => 707000

end ZClassic
