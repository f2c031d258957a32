import ZClassic.Consensus.CheckBlock
import ZClassic.Lib.GrowArray
import ZClassic.Validation.DisconnectBlock

/-!
# Connecting a block

`connect_block` of `lib/validation/src/connect_block.c`: a block is validated against a coins view
and applied to it.
-/

namespace ZClassic

structure ConnectEnv extends CheckEnv where
  /-- `g_deferred_proof_validation_below_height`; negative is off -/
  deferredProofHeight : ℤ := -1
  /-- `verify_script` with the signature checker of one input: script, public key script, flags and
  branch id; transaction, input index, amount and precomputed data -/
  verifyScript : Script → Script → UInt32 → UInt32 → Transaction → ℕ → Int64 → Transaction → Bool

/-- The cumulative pool values of a block index entry; `none` where `has_chain_*_value` is not
set. -/
structure PoolValues where
  nChainSproutValue : Option Int64 := none
  nChainSaplingValue : Option Int64 := none
  deriving DecidableEq

/-- The `struct block_index` being connected, with the pool values of its parent. -/
structure ConnectIndex where
  hash : UInt256
  nHeight : Int32
  pprev : Option PoolValues

def badBlock (reason : String) : Reject := { rejectReason := reason, dos := 100 }

def sproutValue (blk : Block) : Int64 :=
  (blk.vtx.flatMap (·.vJoinsplit)).foldl (fun v js => v + js.vpubOld - js.vpubNew) 0

def saplingValue (blk : Block) : Int64 :=
  blk.vtx.foldl (fun v tx => v + tx.valueBalance) 0

/-- A pool value is carried on when the parent's is known, and may not be negative. -/
def advancePool (parent : Option Int64) (value : Int64) (reason : String) :
    Except Reject (Option Int64) :=
  match parent with
  | none => .ok none
  | some total => if total + value < 0 then .error (badBlock reason) else .ok (some (total + value))

def checkTurnstile (pprev : Option PoolValues) (blk : Block) : Except Reject PoolValues :=
  match pprev with
  | none => .ok {}
  | some parent => do
    let sprout ← advancePool parent.nChainSproutValue (sproutValue blk)
      "bad-txns-sprout-turnstile-violation"
    let sapling ← advancePool parent.nChainSaplingValue (saplingValue blk)
      "bad-txns-sapling-turnstile-violation"
    .ok ⟨sprout, sapling⟩

def CoinsViewCache.getOutputFor (v : CoinsViewCache) (op : Outpoint) : Option TxOut :=
  coinsOutput (v.modify op.hash) op.n.toNat

def CoinsViewCache.haveInputs (v : CoinsViewCache) (tx : Transaction) : Bool :=
  transactionIsCoinbase tx || tx.vin.all fun i => (v.getOutputFor i.prevout).isSome

/-- The source looks at neither the view nor the transaction. -/
def CoinsViewCache.haveJoinsplitRequirements (_ : CoinsViewCache) (_ : Transaction) : Bool := true

def addValueIn (value x : Int64) : Option Int64 :=
  if moneyRange (value + x) then some (value + x) else none

/-- `coins_view_cache_get_value_in`; the source returns −1 where this is `none`. -/
def CoinsViewCache.valueIn (v : CoinsViewCache) (tx : Transaction) : Option Int64 := do
  let value ← tx.vin.foldlM (fun value i => do
    let out ← v.getOutputFor i.prevout
    if moneyRange out.value then addValueIn value out.value else none) 0
  let value ← if 0 ≤ tx.valueBalance then addValueIn value tx.valueBalance else some value
  tx.vJoinsplit.foldlM (fun value js => addValueIn value js.vpubNew) value

def CoinsViewCache.getValueIn (v : CoinsViewCache) (tx : Transaction) : Int64 :=
  if transactionIsCoinbase tx then 0 else (v.valueIn tx).getD (-1)

/-- `struct script_check`: the public key script is a reference to the cached output. -/
structure ScriptCheck where
  scriptSig : Script
  scriptPubKey : Outpoint
  flags : UInt32
  branchId : UInt32
  txTo : Transaction
  nIn : ℕ
  amount : Int64
  txdata : ArrayRef

structure ConnectState where
  view : CoinsViewCache
  fees : Int64 := 0
  sigOps : UInt32 := 0
  checks : GrowArray ScriptCheck
  checkPtrs : List ArrayRef := []
  /-- `precompute_tx_data` of these transactions -/
  txdatas : GrowArray Transaction

/-- `checks_cap` and `txdatas_cap` of the pre-scan. -/
def prescan (txs : List Transaction) : ℕ × ℕ :=
  let spending := txs.filter fun tx => !transactionIsCoinbase tx
  ((spending.map (·.vin.length)).sum, spending.length)

def ConnectState.init (view : CoinsViewCache) (blk : Block) : ConnectState where
  view
  checks := { cap := max 1 (prescan blk.vtx).1 }
  txdatas := { cap := max 1 (prescan blk.vtx).2 }

def connectFlags : UInt32 := scriptVerifyP2sh ||| scriptVerifyChecklocktimeverify

def collectInput (branchId : UInt32) (tx : Transaction) (txdata : ArrayRef) (st : ConnectState)
    (input : TxIn × ℕ) : Except Reject ConnectState :=
  match st.view.getOutputFor input.1.prevout with
  | none => .error (badBlock "bad-txns-inputs-missingorspent")
  | some prevOut =>
    if !moneyRange prevOut.value then .error (badBlock "bad-txns-inputvalues-outofrange")
    else
      let checks := st.checks.reserve 256
      .ok { st with
        checks := checks.push
          { scriptSig := input.1.scriptSig
            scriptPubKey := input.1.prevout
            flags := connectFlags
            branchId
            txTo := tx
            nIn := input.2
            amount := prevOut.value
            txdata := txdata }
        checkPtrs := st.checkPtrs ++ [checks.nextRef] }

def collectScripts (branchId : UInt32) (tx : Transaction) (st : ConnectState) :
    Except Reject ConnectState :=
  let txdatas := st.txdatas.reserve 64
  tx.vin.zipIdx.foldlM (collectInput branchId tx txdatas.nextRef)
    { st with txdatas := txdatas.push tx }

/-- `script_check_fn`, run through its pointer on the view as it is by then. -/
def scriptCheckFn (env : ConnectEnv) (st : ConnectState) (ptr : ArrayRef) : Bool :=
  match st.checks.deref ptr with
  | none => false
  | some sc =>
    match ((st.view.modify sc.scriptPubKey.hash).vout[sc.scriptPubKey.n.toNat]?),
        st.txdatas.deref sc.txdata with
    | some out, some txdata =>
      env.verifyScript sc.scriptSig out.scriptPubKey sc.flags sc.branchId sc.txTo sc.nIn sc.amount
        txdata
    | _, _ => false

def checkMaturity (view : CoinsViewCache) (tx : Transaction) (nHeight : Int32) :
    Except Reject Unit :=
  refuseIf (∃ i ∈ tx.vin, (view.modify i.prevout.hash).isCoinbase = true ∧
      nHeight.toInt - (view.modify i.prevout.hash).height.toInt < coinbaseMaturity)
    (badBlock "bad-txns-premature-spend-of-coinbase")

/-- The fee of a transaction that is not a coinbase, added to the fees before it. -/
def chargeTxFee (view : CoinsViewCache) (tx : Transaction) (fees : Int64) :
    Except Reject Int64 := do
  let valueIn := view.getValueIn tx
  let valueOut := transactionGetValueOut tx
  refuseIf (valueIn < 0 ∨ moneyRange valueIn = false) (badBlock "bad-txns-inputvalues-outofrange")
  refuseIf (valueIn < valueOut) (badBlock "bad-txns-in-belowout")
  refuseIf (valueIn - valueOut < 0) (badBlock "bad-txns-fee-negative")
  refuseIf (moneyRange (fees + (valueIn - valueOut)) = false) (badBlock "bad-txns-fee-outofrange")
  .ok (fees + (valueIn - valueOut))

def addSigOps (sigOps : UInt32) (count : ℕ) : Except Reject UInt32 :=
  let sigOps := sigOps + UInt32.ofNat count
  if maxBlockSigops < sigOps.toNat then .error (badBlock "bad-blk-sigops") else .ok sigOps

/-- What a transaction that is not a coinbase has to pass before it is applied. -/
def connectInputs (nHeight : Int32) (branchId : UInt32) (expensiveChecks : Bool)
    (tx : Transaction) (st : ConnectState) : Except Reject ConnectState :=
  if transactionIsCoinbase tx then .ok st
  else do
    checkMaturity st.view tx nHeight
    refuseIf (st.view.haveInputs tx = false) (badBlock "bad-txns-inputs-missingorspent")
    refuseIf (st.view.haveJoinsplitRequirements tx = false)
      (badBlock "bad-txns-joinsplit-requirements-not-met")
    let sigOps ← addSigOps st.sigOps (getP2shSigOpCount tx st.view.getOutputFor connectFlags)
    let fees ← chargeTxFee st.view tx st.fees
    let st := { st with sigOps, fees }
    if expensiveChecks then collectScripts branchId tx st else .ok st

def connectTx (nHeight : Int32) (branchId : UInt32) (expensiveChecks : Bool) (st : ConnectState)
    (tx : Transaction) : Except Reject ConnectState := do
  let sigOps ← addSigOps st.sigOps (getLegacySigOpCount tx connectFlags)
  let st ← connectInputs nHeight branchId expensiveChecks tx { st with sigOps }
  match updateCoinsWithUndo tx st.view nHeight with
  | .error _ => .error { badBlock "bad-txns-utxo-update-failed" with corruption := true }
  | .ok (view, _) => .ok { st with view }

section

variable (env : ConnectEnv) (nHeight : Int32)

def expensiveChecks : Bool :=
  !checkpointCovers env.params nHeight.toInt &&
    !(decide (0 ≤ env.deferredProofHeight) && decide (nHeight.toInt ≤ env.deferredProofHeight))

/-- BIP30. A record that this height has written is taken for a partial apply of the same block. -/
def checkBip30 (view : CoinsViewCache) (blk : Block) : Except Reject Unit :=
  refuseIf (¬(0 ≤ env.deferredProofHeight ∧ nHeight.toInt ≤ env.deferredProofHeight) ∧
      ∃ tx ∈ blk.vtx, coinsIsPruned (view.modify tx.hash) = false ∧
        ¬((view.modify tx.hash).height = nHeight ∧ 0 < nHeight))
    (badBlock "bad-txns-BIP30")

def checkReward (blk : Block) (fees : Int64) : Except Reject Unit := do
  let subsidy := getBlockSubsidy nHeight env.params.consensus
  refuseIf (Int64.maxValue - subsidy < fees) (badBlock "bad-cb-reward-overflow")
  refuseIf (∃ tx ∈ blk.vtx.head?, fees + subsidy < transactionGetValueOut tx)
    (badBlock "bad-cb-amount")

def checkSaplingRoot (header : BlockHeader) (justCheck : Bool) : Except Reject Unit :=
  refuseIf (justCheck = false ∧
      consensusNetworkUpgradeActive env.params.consensus nHeight.toInt .sapling = true ∧
      header.hashFinalSaplingRoot = 0)
    (badBlock "bad-sapling-root-zeroed")

/-- The transaction loop: the state in which the collected scripts are run. -/
def connectTxs (blk : Block) (view : CoinsViewCache) : Except Reject ConnectState :=
  blk.vtx.foldlM (connectTx nHeight (consensusCurrentEpochBranchId nHeight.toInt
    env.params.consensus) (expensiveChecks env nHeight)) (.init view blk)

/-- The view and the block's pool values when the block is connected. -/
def connectBlock (header : BlockHeader) (blk : Block) (pindex : ConnectIndex)
    (view : CoinsViewCache) (justCheck : Bool) : Except Reject (CoinsViewCache × PoolValues) := do
  checkBlock env.toCheckEnv header blk (expensiveChecks env pindex.nHeight) (!justCheck) true
  if pindex.hash = env.params.hashGenesisBlock then
    .ok ({ view with bestBlock := if justCheck then view.bestBlock else pindex.hash }, {})
  else
    refuseIf (view.bestBlock ≠ 0 ∧ header.hashPrevBlock ≠ view.bestBlock)
      { rejectReason := "connect_block-view-mismatch", fatal := true }
    let pools ← checkTurnstile pindex.pprev blk
    checkBip30 env pindex.nHeight view blk
    let st ← connectTxs env pindex.nHeight blk view
    refuseIf (st.checkPtrs.all (scriptCheckFn env st) = false)
      (badBlock "mandatory-script-verify-flag-failed")
    checkSaplingRoot env pindex.nHeight header justCheck
    checkReward env pindex.nHeight blk st.fees
    .ok ({ st.view with bestBlock := if justCheck then st.view.bestBlock else pindex.hash }, pools)

/-- What connecting a block other than genesis has passed. -/
structure ConnectedAs (header : BlockHeader) (blk : Block)
    (pindex : ConnectIndex) (view : CoinsViewCache) (justCheck : Bool) (pools : PoolValues)
    (st : ConnectState) : Prop where
  block : checkBlock env.toCheckEnv header blk (expensiveChecks env pindex.nHeight) (!justCheck)
    true = .ok ()
  turnstile : checkTurnstile pindex.pprev blk = .ok pools
  bip30 : checkBip30 env pindex.nHeight view blk = .ok ()
  txs : connectTxs env pindex.nHeight blk view = .ok st
  scripts : st.checkPtrs.all (scriptCheckFn env st) = true
  reward : checkReward env pindex.nHeight blk st.fees = .ok ()

end

theorem connectBlock_ok {env : ConnectEnv} {header : BlockHeader} {blk : Block}
    {pindex : ConnectIndex} {view view' : CoinsViewCache} {justCheck : Bool} {pools : PoolValues}
    (hgenesis : pindex.hash ≠ env.params.hashGenesisBlock)
    (h : connectBlock env header blk pindex view justCheck = .ok (view', pools)) :
    ∃ st, ConnectedAs env header blk pindex view justCheck pools st := by
  obtain ⟨_, hblock, h⟩ := bind_eq_ok h
  rw [if_neg hgenesis, refuseIf_bind_eq_ok] at h
  obtain ⟨pools', hturnstile, h⟩ := bind_eq_ok h.2
  obtain ⟨_, hbip30, h⟩ := bind_eq_ok h
  obtain ⟨st, htxs, h⟩ := bind_eq_ok h
  rw [refuseIf_bind_eq_ok] at h
  obtain ⟨hscripts, h⟩ := h
  obtain ⟨_, -, h⟩ := bind_eq_ok h
  obtain ⟨_, hreward, h⟩ := bind_eq_ok h
  cases h
  exact ⟨st, hblock, hturnstile, hbip30, htxs, by simpa using hscripts, hreward⟩

theorem addSigOps_ok {sigOps sigOps' : UInt32} {count : ℕ}
    (h : addSigOps sigOps count = .ok sigOps') : sigOps' = sigOps + UInt32.ofNat count := by
  unfold addSigOps at h
  dsimp only at h
  split_ifs at h
  exact (Except.ok.inj h).symm

theorem connectTx_ok {nHeight : Int32} {branchId : UInt32} {expensiveChecks : Bool}
    {tx : Transaction} {st st' : ConnectState}
    (h : connectTx nHeight branchId expensiveChecks st tx = .ok st') :
    ∃ t view undo, connectInputs nHeight branchId expensiveChecks tx { st with
        sigOps := st.sigOps + UInt32.ofNat (getLegacySigOpCount tx connectFlags) } = .ok t ∧
      updateCoinsWithUndo tx t.view nHeight = .ok (view, undo) ∧ st' = { t with view } := by
  obtain ⟨sigOps, hsigOps, h⟩ := bind_eq_ok h
  rw [addSigOps_ok hsigOps] at h
  obtain ⟨t, ht, h⟩ := bind_eq_ok h
  split at h
  · cases h
  · next view undo hupdate =>
    cases h
    exact ⟨t, view, undo, ht, hupdate, rfl⟩

end ZClassic
