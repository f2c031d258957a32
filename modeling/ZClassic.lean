import ZClassic.Jobs.AppliedHeight
import ZClassic.Jobs.InverseDelta
import ZClassic.Jobs.NoInflation
import ZClassic.Jobs.RepairRewinds
import ZClassic.Jobs.UtxoWriters
import ZClassic.Jobs.UnwindCoins
import ZClassic.Validation.ScriptReferences
import ZClassic.Services.SkippedBlocks
import ZClassic.Services.ContextualRules
import ZClassic.Services.SigOpLimit
import ZClassic.Jobs.ShieldedAnchors
import ZClassic.Validation.FailureMarks
import ZClassic.Services.RecheckWindow
import ZClassic.Net.SnapshotMessages
import ZClassic.Mining.Miner
import ZClassic.Consensus.SighashCommitment
import ZClassic.Consensus.Issuance
import ZClassic.Chain.Retarget
import ZClassic.Bloom.PartialMerkleExtract
import ZClassic.Validation.ForkChoice
import ZClassic.Validation.MempoolConflicts
import ZClassic.Net.FlyClientBinding
import ZClassic.Storage.EventChecksum
import ZClassic.Storage.EventLogFaults
import ZClassic.Net.DownloadLoss
import ZClassic.Wallet.CommitFailure
import ZClassic.Script.Multisig
import ZClassic.Script.ReadOps
import ZClassic.Script.SigChecks
import ZClassic.Jobs.ReducerFrontier
import ZClassic.Chain.BlockIndexWalk
import ZClassic.Coins.ScriptCompress
import ZClassic.Services.SnapshotCommitment
import ZClassic.Net.BlockTxnRequest
import ZClassic.Primitives.Varint
import ZClassic.Bloom.RollingBloom
