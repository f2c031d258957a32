import ZClassic.Lib.LittleEndian
import ZClassic.Lib.Fold
import ZClassic.Consensus.Subsidy

/-!
# Block deltas

`utxo_apply_compute_block_delta` of `app/jobs/src/utxo_apply_delta.c`: one pass over a block that
records every coin it spends, with the pre-image needed to restore it, and every coin it creates.
-/

namespace ZClassic

structure DeltaEntry where
  txid : UInt256
  vout : UInt32
  value : Int64
  script : List UInt8 := []
  isCoinbase : Bool := false
  height : UInt32 := 0
  deriving DecidableEq

def DeltaEntry.outpoint (e : DeltaEntry) : Outpoint := ⟨e.txid, e.vout⟩

structure UtxoApplyLookup where
  found : Bool := false
  value : Int64 := 0
  height : UInt32 := 0
  isCoinbase : Bool := false
  script : List UInt8 := []
  deriving DecidableEq

abbrev UtxoApplyLookupFn := Outpoint → Option UtxoApplyLookup

inductive DeltaStatus where
  | verified
  | spendUnknownUtxo
  | utxoCollision
  | valueOverflow
  | prematureCoinbaseSpend
  | internalError
  | nullifierConflict
  deriving DecidableEq

def DeltaStatus.text : DeltaStatus → String
  | verified => "verified"
  | spendUnknownUtxo => "spend_unknown_utxo"
  | utxoCollision => "utxo_collision"
  | valueOverflow => "value_overflow"
  | prematureCoinbaseSpend => "premature_coinbase_spend"
  | internalError => "internal_error"
  | nullifierConflict => "nullifier_conflict"

inductive FailureKind where
  | missingBlock
  | lookupSpend
  | spendUnknownUtxo
  | inputValue
  | prematureSpendOfCoinbase
  | scriptTooLarge
  | outputValue
  | duplicateOutput
  | lookupOutput
  | utxoCollision
  | inputvaluesOutofrange
  | outputsExceedInputs
  | feesOutOfRange
  | totalValueDelta
  | badCbRewardOverflow
  | badCbAmount
  | badJoinsplitNullifierReused
  deriving DecidableEq

def FailureKind.text : FailureKind → String
  | missingBlock => "missing_block"
  | lookupSpend => "lookup_spend"
  | spendUnknownUtxo => "spend_unknown_utxo"
  | inputValue => "input_value"
  | prematureSpendOfCoinbase => "bad-txns-premature-spend-of-coinbase"
  | scriptTooLarge => "script_too_large"
  | outputValue => "output_value"
  | duplicateOutput => "duplicate_output"
  | lookupOutput => "lookup_output"
  | utxoCollision => "utxo_collision"
  | inputvaluesOutofrange => "inputvalues_outofrange"
  | outputsExceedInputs => "outputs_exceed_inputs"
  | feesOutOfRange => "fees_out_of_range"
  | totalValueDelta => "total_value_delta"
  | badCbRewardOverflow => "bad-cb-reward-overflow"
  | badCbAmount => "bad-cb-amount"
  | badJoinsplitNullifierReused => "bad-joinsplit-nullifier-reused"

/-- `struct delta_summary`. `overflowed` is not in the source: it records whether one of the
`int64_t` running totals left its range. -/
structure DeltaSummary where
  ok : Bool := true
  status : DeltaStatus := .verified
  failureKind : Option FailureKind := none
  failureDetail : List UInt8 := List.replicate 36 0
  spentCount : ℕ := 0
  addedCount : ℕ := 0
  spent : List DeltaEntry := []
  added : List DeltaEntry := []
  totalValueDelta : Int64 := 0
  overflowed : Bool := false
  deriving DecidableEq

def failureDetailSet (op : Outpoint) : List UInt8 :=
  leBytes 32 op.hash.toNat ++ leBytes 4 op.n.toNat

structure DeltaState where
  spent : List DeltaEntry := []
  added : List DeltaEntry := []
  totalValueDelta : Int64 := 0
  totalFees : Int64 := 0
  txInputValue : Int64 := 0
  overflowed : Bool := false
  deriving DecidableEq

namespace DeltaState

/-- The summary of a rejected block: the counters stay, `free_delta` drops the arrays. -/
def reject (st : DeltaState) (status : DeltaStatus) (kind : FailureKind) : DeltaSummary where
  ok := false
  status
  failureKind := some kind
  spentCount := st.spent.length
  addedCount := st.added.length
  totalValueDelta := st.totalValueDelta
  overflowed := st.overflowed

def deltaFail (st : DeltaState) (status : DeltaStatus) (kind : FailureKind) (op : Outpoint) :
    DeltaSummary :=
  { st.reject status kind with failureDetail := failureDetailSet op }

def lookupFail (st : DeltaState) (kind : FailureKind) : DeltaSummary :=
  st.reject .internalError kind

def accept (st : DeltaState) : DeltaSummary where
  spentCount := st.spent.length
  addedCount := st.added.length
  spent := st.spent
  added := st.added
  totalValueDelta := st.totalValueDelta
  overflowed := st.overflowed

end DeltaState

def maxMoneyZat : Int64 := 2100000000000000

def utxoApplyScriptMax : ℕ := 10000

def lookupAdded (added : List DeltaEntry) (op : Outpoint) : Option DeltaEntry :=
  added.find? fun e => e.vout == op.n && e.txid == op.hash

section Loop

variable (height : UInt32) (lookup : UtxoApplyLookupFn)

/-- The pre-image of a spent coin: the entry this block added, or what the lookup reports. -/
def restorePreimage (added : List DeltaEntry) (op : Outpoint) : Option UtxoApplyLookup :=
  match lookupAdded added op with
  | some e => some ⟨true, e.value, height, e.isCoinbase, e.script⟩
  | none => lookup op

def spendInput (st : DeltaState) (txin : TxIn) : Except DeltaSummary DeltaState :=
  let op := txin.prevout
  match restorePreimage height lookup st.added op with
  | none => .error (st.lookupFail .lookupSpend)
  | some pre =>
    if !pre.found then .error (st.deltaFail .spendUnknownUtxo .spendUnknownUtxo op)
    else if pre.value < 0 ∨ maxMoneyZat < pre.value then
      .error (st.deltaFail .valueOverflow .inputValue op)
    else if pre.isCoinbase ∧ (height.toNat : ℤ) - pre.height.toNat < coinbaseMaturity then
      .error (st.deltaFail .prematureCoinbaseSpend .prematureSpendOfCoinbase op)
    else if utxoApplyScriptMax < pre.script.length then
      .error (st.reject .internalError .scriptTooLarge)
    else .ok
      { st with
        spent := st.spent ++ [⟨op.hash, op.n, pre.value, pre.script, pre.isCoinbase, pre.height⟩]
        totalValueDelta := st.totalValueDelta - pre.value
        txInputValue := st.txInputValue + pre.value
        overflowed := st.overflowed || subOverflows st.totalValueDelta pre.value
          || addOverflows st.txInputValue pre.value }

def addOutput (tx : Transaction) (st : DeltaState) (out : TxOut × ℕ) :
    Except DeltaSummary DeltaState :=
  let op : Outpoint := ⟨tx.hash, UInt32.ofNat out.2⟩
  if txOutIsNull out.1 then .ok st
  else if out.1.value < 0 ∨ maxMoneyZat < out.1.value then
    .error (st.deltaFail .valueOverflow .outputValue op)
  else if (lookupAdded st.added op).isSome then
    .error (st.deltaFail .utxoCollision .duplicateOutput op)
  else match lookup op with
    | none => .error (st.lookupFail .lookupOutput)
    | some lk =>
      if lk.found then .error (st.deltaFail .utxoCollision .utxoCollision op)
      else .ok
        { st with
          added := st.added ++ [{
            txid := op.hash, vout := op.n, value := out.1.value,
            script := out.1.scriptPubKey.data, isCoinbase := transactionIsCoinbase tx }]
          totalValueDelta := st.totalValueDelta + out.1.value
          overflowed := st.overflowed || addOverflows st.totalValueDelta out.1.value }

/-- The money rule of a non-coinbase transaction, and its fee. -/
def chargeFee (tx : Transaction) (st : DeltaState) : Except DeltaSummary DeltaState :=
  let shIn := transactionGetShieldedValueIn tx
  let valueOutFull := transactionGetValueOut tx
  let valueInFull := st.txInputValue + shIn
  let txFee := valueInFull - valueOutFull
  if shIn < 0 ∨ valueOutFull < 0 ∨ maxMoneyZat - st.txInputValue < shIn then
    .error (st.deltaFail .valueOverflow .inputvaluesOutofrange ⟨tx.hash, 0⟩)
  else if valueInFull < valueOutFull then
    .error (st.deltaFail .valueOverflow .outputsExceedInputs ⟨tx.hash, 0⟩)
  else if maxMoneyZat - st.totalFees < txFee then
    .error (st.deltaFail .valueOverflow .feesOutOfRange ⟨tx.hash, 0⟩)
  else .ok
    { st with
      totalFees := st.totalFees + txFee
      overflowed := st.overflowed || addOverflows st.totalFees txFee }

def applyTx (st : DeltaState) (tx : Transaction) : Except DeltaSummary DeltaState := do
  let st := { st with txInputValue := 0 }
  let st ← if transactionIsCoinbase tx then pure st
    else tx.vin.foldlM (spendInput height lookup) st
  let st ← tx.vout.zipIdx.foldlM (addOutput lookup tx) st
  if transactionIsCoinbase tx then pure st else chargeFee tx st

end Loop

/-- The checks after the loop: the block's net value and the coinbase ceiling. -/
def checkCoinbase (params : ConsensusParams) (height : UInt32) (blk : Block) (st : DeltaState) :
    Except DeltaSummary DeltaState :=
  if maxMoneyZat < st.totalValueDelta ∨ st.totalValueDelta < -maxMoneyZat then
    .error (st.reject .valueOverflow .totalValueDelta)
  else match blk.vtx with
    | [] => .ok st
    | cb :: _ =>
      let subsidy := getBlockSubsidy height.toInt32 params
      let cbValueOut := transactionGetValueOut cb
      if !transactionIsCoinbase cb then .ok st
      else if subsidy < 0 ∨ Int64.maxValue - subsidy < st.totalFees then
        .error (st.deltaFail .valueOverflow .badCbRewardOverflow ⟨cb.hash, 0⟩)
      else if cbValueOut < 0 ∨ subsidy + st.totalFees < cbValueOut then
        .error (st.deltaFail .valueOverflow .badCbAmount ⟨cb.hash, 0⟩)
      else .ok st

def blockDelta (params : ConsensusParams) (height : UInt32) (lookup : UtxoApplyLookupFn)
    (blk : Block) : Except DeltaSummary DeltaState := do
  let st ← blk.vtx.foldlM (applyTx height lookup) {}
  checkCoinbase params height blk st

def utxoApplyComputeBlockDelta (params : ConsensusParams) (blk : Option Block) (height : UInt32)
    (lookup : UtxoApplyLookupFn) : DeltaSummary :=
  match blk with
  | none => { ok := false, status := .internalError, failureKind := some .missingBlock }
  | some blk =>
    match blockDelta params height lookup blk with
    | .ok st => st.accept
    | .error s => s

end ZClassic
