import ZClassic.Consensus.CheckBlock

/-!
# Contextual checks

`contextual_check_block` of `lib/validation/src/check_block.c` with the transaction rules that
depend on the height: version forms (`domain/consensus/src/sapling_structural.c`), expiry and
finality (`domain/consensus/src/locktime.c`), shielded signatures and proofs
(`lib/validation/src/contextual_check_tx.c`) and the height in the coinbase.
-/

namespace ZClassic

/-- The cryptography that the contextual checks call, and the policy height below which they leave
it out. -/
structure ContextualEnv where
  deferredProofValidationBelowHeight : ℤ := -1
  /-- `signature_hash` over the whole transaction, for a branch id -/
  signatureHash : UInt32 → Transaction → Option UInt256
  ed25519Verify : Transaction → UInt256 → Bool
  saplingVerificationCtxInit : Bool := true
  saplingCheckSpend : SpendDescription → UInt256 → Bool
  saplingCheckOutput : OutputDescription → Bool
  /-- `zclassic_sapling_final_check` after all spends and outputs of the transaction -/
  saplingFinalCheck : Transaction → UInt256 → Bool
  sproutVerifyGroth16 : Transaction → JsDescription → Bool
  sproutVerifyPhgr13 : Transaction → JsDescription → Bool

def locktimeThreshold : ℤ := 500000000

def txInIsFinal (i : TxIn) : Bool := i.sequence == 0xffffffff

def isFinalTx (tx : Transaction) (nBlockHeight nBlockTime : ℤ) : Bool :=
  let lt : ℤ := tx.lockTime.toNat
  lt == 0 || decide (lt < if lt < locktimeThreshold then nBlockHeight else nBlockTime) ||
    tx.vin.all txInIsFinal

/-- `domain_consensus_tx_is_expired`; the height is converted to `uint32_t`. -/
def isExpiredTx (tx : Transaction) (nHeight : ℤ) : Bool :=
  !(tx.expiryHeight == 0 || transactionIsCoinbase tx) &&
    decide (tx.expiryHeight.toNat ≤ (nHeight % 2 ^ 32).toNat)

def overwinterMaxTxVersion : Int32 := 3

def saplingMinTxVersion : Int32 := 4

def saplingMaxTxVersion : Int32 := 4

def maxTxSizeBeforeSapling : ℕ := 100000

def invalid (reason : String) (dos : ℕ) : Reject := ⟨reason, dos, false, false⟩

/-- The rules of the active upgrade for the version fields. -/
def checkVersionForm (params : ConsensusParams) (nHeight : ℤ) (dosLevel : ℕ) (tx : Transaction) :
    Except Reject Unit := do
  if consensusNetworkUpgradeActive params nHeight .sapling then
    refuseIf (saplingMinTxVersion ≤ tx.version ∧ tx.overwintered = false)
      (invalid "tx-overwintered-flag-not-set" dosLevel)
    refuseIf (tx.overwintered = true ∧ tx.versionGroupId ≠ saplingVersionGroupId)
      (invalid "bad-sapling-tx-version-group-id" dosLevel)
    refuseIf (tx.overwintered = true ∧ tx.version < saplingMinTxVersion)
      (invalid "bad-tx-sapling-version-too-low" 100)
    refuseIf (tx.overwintered = true ∧ saplingMaxTxVersion < tx.version)
      (invalid "bad-tx-sapling-version-too-high" 100)
  else if consensusNetworkUpgradeActive params nHeight .overwinter then
    refuseIf (overwinterMinTxVersion ≤ tx.version ∧ tx.overwintered = false)
      (invalid "tx-overwinter-flag-not-set" dosLevel)
    refuseIf (tx.overwintered = true ∧ tx.versionGroupId ≠ overwinterVersionGroupId)
      (invalid "bad-overwinter-tx-version-group-id" dosLevel)
    refuseIf (tx.overwintered = true ∧ overwinterMaxTxVersion < tx.version)
      (invalid "bad-tx-overwinter-version-too-high" 100)

def checkTransactionSaplingStructural (params : ConsensusParams) (nHeight : ℤ) (dosLevel : ℕ)
    (tx : Transaction) : Except Reject Unit := do
  let overwinterActive := consensusNetworkUpgradeActive params nHeight .overwinter
  let saplingActive := consensusNetworkUpgradeActive params nHeight .sapling
  refuseIf (nHeight < 0) (invalid "" 0)
  refuseIf (overwinterActive = false ∧ tx.overwintered = true)
    (invalid "tx-overwinter-not-active" dosLevel)
  checkVersionForm params nHeight dosLevel tx
  refuseIf (overwinterActive = true ∧ tx.overwintered = false)
    (invalid "tx-overwinter-active" dosLevel)
  refuseIf (saplingActive = false ∧ maxTxSizeBeforeSapling < transactionSerializeSize tx)
    (invalid "bad-txns-oversize" 100)

def checkSaplingDescriptions (env : ContextualEnv) (tx : Transaction) (sighash : UInt256) :
    Except Reject Unit := do
  refuseIf (env.saplingVerificationCtxInit = false)
    (invalid "sapling-verification-ctx-init-failed" 100)
  refuseIf ((tx.vShieldedSpend.all fun sd => env.saplingCheckSpend sd sighash) = false)
    (invalid "bad-txns-sapling-spend-description-invalid" 100)
  refuseIf ((tx.vShieldedOutput.all env.saplingCheckOutput) = false)
    (invalid "bad-txns-sapling-output-description-invalid" 100)
  refuseIf (env.saplingFinalCheck tx sighash = false)
    (invalid "bad-txns-sapling-binding-sig-invalid" 100)

def checkJoinsplitProof (env : ContextualEnv) (tx : Transaction) (js : JsDescription) :
    Except Reject Unit :=
  if js.useGroth then
    refuseIf (env.sproutVerifyGroth16 tx js = false)
      (invalid "bad-txns-joinsplit-proof-invalid" 100)
  else
    refuseIf (env.sproutVerifyPhgr13 tx js = false)
      (invalid "bad-txns-joinsplit-phgr13-invalid" 100)

/-- The part that a policy height leaves out. -/
def checkShieldedProofs (env : ContextualEnv) (params : ConsensusParams) (nHeight : ℤ)
    (tx : Transaction) : Except Reject Unit := do
  let sapling := !tx.vShieldedSpend.isEmpty || !tx.vShieldedOutput.isEmpty
  let sighash ← if sapling || !tx.vJoinsplit.isEmpty then
      match env.signatureHash (consensusCurrentEpochBranchId nHeight params) tx with
      | none => .error (invalid "error-computing-signature-hash" 100)
      | some sighash => .ok sighash
    else .ok 0
  refuseIf (!tx.vJoinsplit.isEmpty ∧ env.ed25519Verify tx sighash = false)
    (invalid "bad-txns-joinsplit-signature" 100)
  if sapling then checkSaplingDescriptions env tx sighash
  tx.vJoinsplit.foldlM (fun _ js => checkJoinsplitProof env tx js) ()

def contextualCheckTransaction (env : ContextualEnv) (params : ConsensusParams) (nHeight : ℤ)
    (dosLevel : ℕ) (tx : Transaction) : Except Reject Unit := do
  checkTransactionSaplingStructural params nHeight dosLevel tx
  refuseIf (consensusNetworkUpgradeActive params nHeight .overwinter = true ∧
      isExpiredTx tx nHeight = true)
    (invalid "tx-overwinter-expired" (if isExpiredTx tx (nHeight - 1) then dosLevel else 0))
  if !(decide (0 ≤ env.deferredProofValidationBelowHeight) &&
      decide (nHeight ≤ env.deferredProofValidationBelowHeight)) then
    checkShieldedProofs env params nHeight tx

/-- The digits of a positive height, lowest first; an `int` has four of them. -/
def heightDigits : ℕ → ℕ → List UInt8
  | 0, _ => []
  | fuel + 1, h => if h = 0 then [] else UInt8.ofNat (h &&& 0xff) :: heightDigits fuel (h >>> 8)

def heightPush (nHeight : ℕ) : List UInt8 :=
  let digits := heightDigits 4 nHeight
  let num := if digits.getLast?.any (· &&& 0x80 != 0) then digits ++ [0] else digits
  UInt8.ofNat num.length :: num

def bip34CheckCoinbaseHeight (coinbase : Transaction) (nHeight : ℤ) : Bool :=
  match coinbase.vin with
  | [] => false
  | i :: _ =>
    if nHeight ≤ 0 then true
    else match i.scriptSig.data with
      | [] => false
      | first :: rest =>
        (decide (nHeight ≤ 16) && first == 0x50 + UInt8.ofNat nHeight.toNat) ||
          (heightPush nHeight.toNat).isPrefixOf (first :: rest)

def contextualCheckBlock (env : ContextualEnv) (p : ChainParams) (index : HeaderIndex)
    (header : BlockHeader) (blk : Block) (pindexPrev : Option UInt256) : Except Reject Unit := do
  let nHeight : ℤ := match pindexPrev with
    | none => 0
    | some prev => index.nHeight prev + 1
  let nLockTimeCutoff : ℤ := match pindexPrev with
    | none => blockHeaderGetTime header
    | some prev => index.getMedianTimePast prev
  blk.vtx.foldlM (fun _ tx => do
    contextualCheckTransaction env p.consensus nHeight 100 tx
    refuseIf (isFinalTx tx nHeight nLockTimeCutoff = false) (invalid "bad-txns-nonfinal" 10)) ()
  -- a block without transactions has not come through check_block
  refuseIf (0 < nHeight ∧ blk.vtx.head?.any (bip34CheckCoinbaseHeight · nHeight) = false)
    (invalid "bad-cb-height" 100)

variable {env : ContextualEnv}

theorem contextualCheck_ok {params : ConsensusParams} {nHeight : ℤ}
    {dosLevel : ℕ} {tx : Transaction}
    (h : contextualCheckTransaction env params nHeight dosLevel tx = .ok ()) :
    checkTransactionSaplingStructural params nHeight dosLevel tx = .ok () ∧
      (consensusNetworkUpgradeActive params nHeight .overwinter = true →
        isExpiredTx tx nHeight = false) := by
  obtain ⟨u, hform, hrest⟩ := bind_eq_ok h
  obtain ⟨hexpired, -⟩ := refuseIf_bind_eq_ok.mp hrest
  refine ⟨hform, ?_⟩
  intro hactive
  rw [← Bool.not_eq_true]
  exact fun hexp => hexpired ⟨hactive, hexp⟩

/-- The rules for a block on the parent `prev`, spelled out. -/
structure ContextualRules (params : ConsensusParams) (index : HeaderIndex) (blk : Block)
    (prev : UInt256) : Prop where
  form : ∀ tx ∈ blk.vtx,
    checkTransactionSaplingStructural params (index.nHeight prev + 1) 100 tx = .ok ()
  unexpired : consensusNetworkUpgradeActive params (index.nHeight prev + 1) .overwinter = true →
    ∀ tx ∈ blk.vtx, isExpiredTx tx (index.nHeight prev + 1) = false
  final : ∀ tx ∈ blk.vtx,
    isFinalTx tx (index.nHeight prev + 1) (index.getMedianTimePast prev) = true
  coinbase : 0 < index.nHeight prev + 1 →
    blk.vtx.head?.any (bip34CheckCoinbaseHeight · (index.nHeight prev + 1)) = true

theorem contextualCheckBlock_rules {p : ChainParams} {index : HeaderIndex}
    {header : BlockHeader} {blk : Block} {prev : UInt256}
    (h : contextualCheckBlock env p index header blk (some prev) = .ok ()) :
    ContextualRules p.consensus index blk prev := by
  obtain ⟨u, htxs, hcoinbase⟩ := bind_eq_ok h
  have htx : ∀ tx ∈ blk.vtx,
      contextualCheckTransaction env p.consensus (index.nHeight prev + 1) 100 tx = .ok () ∧
        isFinalTx tx (index.nHeight prev + 1) (index.getMedianTimePast prev) = true := by
    intro tx hmem
    obtain ⟨v, hcheck, hfinal⟩ := bind_eq_ok (foldlM_unit_eq_ok_iff.mp htxs tx hmem)
    exact ⟨hcheck, Bool.not_eq_false _ ▸ refuseIf_eq_ok_iff.mp hfinal⟩
  refine ⟨?_, ?_, ?_, ?_⟩
  · intro tx hmem
    exact (contextualCheck_ok (htx tx hmem).1).1
  · intro hactive tx hmem
    exact (contextualCheck_ok (htx tx hmem).1).2 hactive
  · intro tx hmem
    exact (htx tx hmem).2
  · intro hpos
    rw [← Bool.not_eq_false]
    exact fun hfalse => refuseIf_eq_ok_iff.mp hcoinbase ⟨hpos, hfalse⟩

def acceptingContext : ContextualEnv where
  signatureHash _ _ := some 0
  ed25519Verify _ _ := true
  saplingCheckSpend _ _ := true
  saplingCheckOutput _ := true
  saplingFinalCheck _ _ := true
  sproutVerifyGroth16 _ _ := true
  sproutVerifyPhgr13 _ _ := true

end ZClassic
