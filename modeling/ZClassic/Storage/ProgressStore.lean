import ZClassic.Jobs.UtxoApplyDelta
import ZClassic.Storage.CoinsKv

/-!
# The progress store

The tables of `progress.kv`: one cursor and one height-keyed log for each stage, the coin table, the
inverse deltas and a small key-value table. A transaction is a function from the store to a new
store, and a rolled-back transaction leaves the store as it was.
-/

namespace ZClassic

inductive StageName where
  | headerAdmit
  | validateHeaders
  | bodyFetch
  | bodyPersist
  | scriptValidate
  | proofValidate
  | utxoApply
  | tipFinalize
  deriving DecidableEq

inductive MetaKey where
  | coinsAppliedHeight
  /-- `utxo_apply.value_overflow_repair.<height>.<hash>` -/
  | valueOverflowRepair (height : ℕ) (hash : UInt256)
  /-- `reducer_frontier.script_replay_repair.<height>.<hash>` -/
  | scriptReplayRepair (height : ℕ) (hash : UInt256)
  deriving DecidableEq

structure HeaderAdmitRow where
  hash : UInt256
  parentHash : Option UInt256 := none
  deriving DecidableEq

structure ValidateHeadersRow where
  hash : UInt256
  ok : Bool
  failReason : String := ""
  deriving DecidableEq

structure BodyFetchRow where
  source : String
  ok : Bool
  failReason : String := ""
  deriving DecidableEq

structure BodyPersistRow where
  source : String
  ok : Bool
  deriving DecidableEq

inductive ScriptValidateStatus where
  | verified
  | upstreamFailed
  | blockDecodeFailed
  | prevoutUnresolved
  | scriptInvalid
  | internalError
  deriving DecidableEq

structure ScriptValidateRow where
  status : ScriptValidateStatus
  ok : Bool
  txCount : ℕ := 0
  inputCount : ℕ := 0
  firstFailure : Option (UInt256 × ℕ) := none
  firstFailureSerror : ℕ := 0
  blockHash : Option UInt256 := none
  deriving DecidableEq

inductive ProofValidateStatus where
  | verified
  | upstreamFailed
  | proofInvalid
  | internalError
  deriving DecidableEq

structure ProofValidateRow where
  status : ProofValidateStatus
  ok : Bool
  saplingSpendsTotal : ℕ := 0
  saplingOutputsTotal : ℕ := 0
  sproutJoinsplitsTotal : ℕ := 0
  firstFailureTxid : Option UInt256 := none
  firstFailureProofType : Option String := none
  deriving DecidableEq

structure UtxoApplyRow where
  status : DeltaStatus
  ok : Bool
  spentCount : ℕ := 0
  addedCount : ℕ := 0
  totalValueDelta : Int64 := 0
  firstFailureKind : Option FailureKind := none
  firstFailureDetail : Option (List UInt8) := none
  deriving DecidableEq

structure UtxoApplyDeltaRow where
  branchHash : UInt256
  spentBlob : List UInt8
  addedBlob : List UInt8
  deriving DecidableEq

inductive TipFinalizeStatus where
  | finalized
  | anchor
  | upstreamFailed
  | reorgDetected
  | preconditionFailed
  | utxoCountDiverged
  deriving DecidableEq

structure TipFinalizeRow where
  status : TipFinalizeStatus
  ok : Bool
  workDelta : ℕ := 0
  utxoSizeAfter : ℤ := -1
  reorgDepth : ℕ := 0
  tipHash : Option UInt256 := none
  deriving DecidableEq

structure CreatedOutput where
  value : Int64
  script : List UInt8
  height : ℕ
  deriving DecidableEq

structure ProgressStore where
  stageCursor : Table StageName ℕ := ∅
  progressMeta : Table MetaKey (List UInt8) := ∅
  coins : CoinSet := ∅
  createdOutputs : Table Outpoint CreatedOutput := ∅
  headerAdmitLog : Table ℕ HeaderAdmitRow := ∅
  validateHeadersLog : Table ℕ ValidateHeadersRow := ∅
  bodyFetchLog : Table ℕ BodyFetchRow := ∅
  bodyPersistLog : Table ℕ BodyPersistRow := ∅
  scriptValidateLog : Table ℕ ScriptValidateRow := ∅
  proofValidateLog : Table ℕ ProofValidateRow := ∅
  utxoApplyLog : Table ℕ UtxoApplyRow := ∅
  utxoApplyDelta : Table ℕ UtxoApplyDeltaRow := ∅
  tipFinalizeLog : Table ℕ TipFinalizeRow := ∅

namespace ProgressStore

variable (db : ProgressStore)

/-- `stage_cursor_persisted`: a missing row reads as 0. -/
def cursor (name : StageName) : ℕ :=
  (db.stageCursor.lookup name).getD 0

/-- The unconditional cursor upsert that every writer of the table runs. -/
def setCursor (name : StageName) (value : ℕ) : ProgressStore :=
  { db with stageCursor := db.stageCursor.insert name value }

def setCursorIfBehind (name : StageName) (value : ℕ) : ProgressStore :=
  if db.cursor name < value then db.setCursor name value else db

/-- `coins_kv_set_applied_height_in_tx`: eight little-endian bytes of an `int64_t`. -/
def setAppliedHeight (height : Int32) : ProgressStore :=
  { db with
    progressMeta := db.progressMeta.insert .coinsAppliedHeight
      (leBytes 8 height.toInt64.toUInt64.toNat) }

/-- `coins_kv_get_applied_height`; the outer `none` is the read error on a malformed blob. -/
def getAppliedHeight : Option (Option Int32) :=
  match db.progressMeta.lookup .coinsAppliedHeight with
  | none => some none
  | some blob =>
    if blob.length = 8 then some (some (UInt64.ofNat (leNat blob)).toInt64.toInt32) else none

/-- The frontier as `coins_applied_height` shows it: absent, or the stored height. -/
def appliedHeight : Option Int32 := db.getAppliedHeight.join

variable (height : Int32) (name : StageName)

@[simp]
theorem cursor_setCursor (name' : StageName) (value : ℕ) :
    (db.setCursor name value).cursor name' = if name' = name then value else db.cursor name' := by
  unfold cursor setCursor
  rw [Table.lookup_put]
  split <;> rfl

theorem getAppliedHeight_setAppliedHeight :
    (db.setAppliedHeight height).getAppliedHeight = some (some height) := by
  have hlt : height.toInt64.toUInt64.toNat < 256 ^ 8 := by
    have := height.toInt64.toUInt64.toNat_lt
    norm_num
    omega
  simp only [getAppliedHeight, setAppliedHeight, Finmap.lookup_insert, leBytes_length, if_true,
    leNat_leBytes_of_lt hlt]
  simp

@[simp]
theorem appliedHeight_setAppliedHeight :
    (db.setAppliedHeight height).appliedHeight = some height := by
  simp [appliedHeight, getAppliedHeight_setAppliedHeight]

@[simp]
theorem cursor_setAppliedHeight : (db.setAppliedHeight height).cursor name = db.cursor name := rfl

@[simp]
theorem appliedHeight_setCursor (value : ℕ) :
    (db.setCursor name value).appliedHeight = db.appliedHeight := rfl

end ProgressStore

def createdOutputsIndexPutBlock (db : ProgressStore) (blk : Block) (h : ℕ) : ProgressStore :=
  { db with
    createdOutputs := db.createdOutputs.putAll <| blk.vtx.flatMap fun tx =>
      tx.vout.zipIdx.map fun out =>
        (⟨tx.hash, UInt32.ofNat out.2⟩, ⟨out.1.value, out.1.scriptPubKey.data, h⟩) }

end ZClassic
