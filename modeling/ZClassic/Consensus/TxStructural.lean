import ZClassic.Lib.Fold
import ZClassic.Primitives.Transaction

/-!
# Structural transaction checks

`domain_consensus_check_transaction_structural` of `domain/consensus/src/tx_structural.c`, and the
wrapper `check_transaction` that passes its reject reason on.
-/

namespace ZClassic

inductive TxStructuralErr where
  | nullTx
  | versionTooLow
  | overwinterVersionTooLow
  | versionGroupId
  | expiryHeightTooHigh
  | vinEmpty
  | voutEmpty
  | oversize
  | voutNegative
  | voutToolarge
  | voutTotalToolarge
  | valuebalanceNonzero
  | valuebalanceToolarge
  | vpubOldNegative
  | vpubNewNegative
  | vpubOldToolarge
  | vpubNewToolarge
  | vpubsBothNonzero
  | txintotalToolarge
  | inputsDuplicate
  | jsNullifiersDuplicate
  | spendNullifiersDuplicate
  | cbHasJoinsplits
  | cbHasSpendDesc
  | cbHasOutputDesc
  | cbLength
  | prevoutNull
  deriving DecidableEq

structure TxStructuralFailure where
  rejectReason : Option String := none
  dos : ℕ := 0
  deriving DecidableEq

def TxStructuralErr.failure : TxStructuralErr → TxStructuralFailure
  | nullTx => {}
  | versionTooLow => ⟨"bad-txns-version-too-low", 100⟩
  | overwinterVersionTooLow => ⟨"bad-tx-overwinter-version-too-low", 100⟩
  | versionGroupId => ⟨"bad-tx-version-group-id", 100⟩
  | expiryHeightTooHigh => ⟨"bad-tx-expiry-height-too-high", 100⟩
  | vinEmpty => ⟨"bad-txns-vin-empty", 10⟩
  | voutEmpty => ⟨"bad-txns-vout-empty", 10⟩
  | oversize => ⟨"bad-txns-oversize", 100⟩
  | voutNegative => ⟨"bad-txns-vout-negative", 100⟩
  | voutToolarge => ⟨"bad-txns-vout-toolarge", 100⟩
  | voutTotalToolarge => ⟨"bad-txns-txouttotal-toolarge", 100⟩
  | valuebalanceNonzero => ⟨"bad-txns-valuebalance-nonzero", 100⟩
  | valuebalanceToolarge => ⟨"bad-txns-valuebalance-toolarge", 100⟩
  | vpubOldNegative => ⟨"bad-txns-vpub_old-negative", 100⟩
  | vpubNewNegative => ⟨"bad-txns-vpub_new-negative", 100⟩
  | vpubOldToolarge => ⟨"bad-txns-vpub_old-toolarge", 100⟩
  | vpubNewToolarge => ⟨"bad-txns-vpub_new-toolarge", 100⟩
  | vpubsBothNonzero => ⟨"bad-txns-vpubs-both-nonzero", 100⟩
  | txintotalToolarge => ⟨"bad-txns-txintotal-toolarge", 100⟩
  | inputsDuplicate => ⟨"bad-txns-inputs-duplicate", 100⟩
  | jsNullifiersDuplicate => ⟨"bad-joinsplits-nullifiers-duplicate", 100⟩
  | spendNullifiersDuplicate => ⟨"bad-spend-description-nullifiers-duplicate", 100⟩
  | cbHasJoinsplits => ⟨"bad-cb-has-joinsplits", 100⟩
  | cbHasSpendDesc => ⟨"bad-cb-has-spend-description", 100⟩
  | cbHasOutputDesc => ⟨"bad-cb-has-output-description", 100⟩
  | cbLength => ⟨"bad-cb-length", 100⟩
  | prevoutNull => ⟨"bad-txns-prevout-null", 10⟩

def overwinterVersionGroupId : UInt32 := 0x03C48270

def saplingVersionGroupId : UInt32 := 0x892F2085

def isOverwinterV3 (tx : Transaction) : Bool :=
  tx.overwintered && tx.versionGroupId == overwinterVersionGroupId && tx.version == 3

def isSaplingV4 (tx : Transaction) : Bool :=
  tx.overwintered && tx.versionGroupId == saplingVersionGroupId && tx.version == 4

def compactSizeLength (n : ℕ) : ℕ :=
  if n < 253 then 1 else if n ≤ 0xffff then 3 else if n ≤ 0xffffffff then 5 else 9

def groth16ProofSize : ℕ := 192

def phgrProofSize : ℕ := 296

def txInSize (i : TxIn) : ℕ := 32 + 4 + compactSizeLength i.scriptSig.size + i.scriptSig.size + 4

def txOutSize (out : TxOut) : ℕ :=
  8 + compactSizeLength out.scriptPubKey.size + out.scriptPubKey.size

def spendDescriptionSize : ℕ := 4 * 32 + groth16ProofSize + 64

def outputDescriptionSize : ℕ := 3 * 32 + 580 + 80 + groth16ProofSize

def jsDescriptionSize (js : JsDescription) : ℕ :=
  8 + 8 + 32 + 2 * 32 + 2 * 32 + 32 + 32 + 2 * 32 +
    (if js.useGroth then groth16ProofSize else phgrProofSize) + 2 * 601

/-- `transaction_serialize_size`, the lengths of what `transaction_serialize` writes. -/
def transactionSerializeSize (tx : Transaction) : ℕ :=
  4 + (if tx.overwintered then 4 else 0) +
    (compactSizeLength tx.vin.length + (tx.vin.map txInSize).sum) +
    (compactSizeLength tx.vout.length + (tx.vout.map txOutSize).sum) + 4 +
    (if isOverwinterV3 tx || isSaplingV4 tx then 4 else 0) +
    (if isSaplingV4 tx then
      8 + (compactSizeLength tx.vShieldedSpend.length +
          tx.vShieldedSpend.length * spendDescriptionSize) +
        (compactSizeLength tx.vShieldedOutput.length +
          tx.vShieldedOutput.length * outputDescriptionSize)
    else 0) +
    (if 2 ≤ tx.version then
      compactSizeLength tx.vJoinsplit.length + (tx.vJoinsplit.map jsDescriptionSize).sum +
        (if tx.vJoinsplit.isEmpty then 0 else 32 + 64)
    else 0) +
    (if isSaplingV4 tx && !(tx.vShieldedSpend.isEmpty && tx.vShieldedOutput.isEmpty) then 64
      else 0)

abbrev TxCheck := Except TxStructuralErr

def rejectIf (p : Prop) [Decidable p] (e : TxStructuralErr) : TxCheck Unit :=
  if p then .error e else .ok ()

/-- `total += x`, which has to stay in money range. -/
def addInRange (total x : Int64) (e : TxStructuralErr) : TxCheck Int64 :=
  if moneyRange (total + x) then .ok (total + x) else .error e

def sproutMinTxVersion : Int32 := 1

def overwinterMinTxVersion : Int32 := 3

def txExpiryHeightThreshold : UInt32 := 500000000

def maxTxSizeAfterSapling : ℕ := 2000000

section

variable (tx : Transaction)

def checkVersion : TxCheck Unit := do
  rejectIf (tx.overwintered = false ∧ tx.version < sproutMinTxVersion) .versionTooLow
  if tx.overwintered then
    rejectIf (tx.version < overwinterMinTxVersion) .overwinterVersionTooLow
    rejectIf (tx.versionGroupId ≠ overwinterVersionGroupId ∧
      tx.versionGroupId ≠ saplingVersionGroupId) .versionGroupId
    rejectIf (txExpiryHeightThreshold ≤ tx.expiryHeight) .expiryHeightTooHigh

def checkExistence : TxCheck Unit := do
  rejectIf (tx.vin = [] ∧ tx.vJoinsplit = [] ∧ tx.vShieldedSpend = []) .vinEmpty
  rejectIf (tx.vout = [] ∧ tx.vJoinsplit = [] ∧ tx.vShieldedOutput = []) .voutEmpty
  rejectIf (maxTxSizeAfterSapling < transactionSerializeSize tx) .oversize

/-- One pass of the output loop; the state is `value_out`. -/
def checkOutput (valueOut : Int64) (out : TxOut) : TxCheck Int64 := do
  rejectIf (out.value < 0) .voutNegative
  rejectIf (maxMoney < out.value) .voutToolarge
  addInRange valueOut out.value .voutTotalToolarge

def checkValueBalance (valueOut : Int64) : TxCheck Int64 := do
  rejectIf (tx.vShieldedSpend = [] ∧ tx.vShieldedOutput = [] ∧ tx.valueBalance ≠ 0)
    .valuebalanceNonzero
  rejectIf (maxMoney < tx.valueBalance ∨ tx.valueBalance < -maxMoney) .valuebalanceToolarge
  if tx.valueBalance ≤ 0 then addInRange valueOut (-tx.valueBalance) .voutTotalToolarge
  else .ok valueOut

def checkJoinsplitValues (valueOut : Int64) (js : JsDescription) : TxCheck Int64 := do
  rejectIf (js.vpubOld < 0) .vpubOldNegative
  rejectIf (js.vpubNew < 0) .vpubNewNegative
  rejectIf (maxMoney < js.vpubOld) .vpubOldToolarge
  rejectIf (maxMoney < js.vpubNew) .vpubNewToolarge
  rejectIf (js.vpubNew ≠ 0 ∧ js.vpubOld ≠ 0) .vpubsBothNonzero
  addInRange valueOut js.vpubOld .voutTotalToolarge

def checkJoinsplitInput (valueIn : Int64) (js : JsDescription) : TxCheck Int64 := do
  rejectIf (moneyRange js.vpubNew = false) .txintotalToolarge
  addInRange valueIn js.vpubNew .txintotalToolarge

def checkValues : TxCheck Unit := do
  let valueOut ← tx.vout.foldlM checkOutput 0
  let valueOut ← checkValueBalance tx valueOut
  let _ ← tx.vJoinsplit.foldlM checkJoinsplitValues valueOut
  let valueIn ← tx.vJoinsplit.foldlM checkJoinsplitInput 0
  if 0 ≤ tx.valueBalance then
    let _ ← addInRange valueIn tx.valueBalance .txintotalToolarge

def checkDuplicates : TxCheck Unit := do
  rejectIf (¬(tx.vin.map (·.prevout)).Nodup) .inputsDuplicate
  rejectIf (¬(txSproutNullifiers tx).Nodup) .jsNullifiersDuplicate
  rejectIf (¬(txSaplingNullifiers tx).Nodup) .spendNullifiersDuplicate

def checkCoinbaseRestrictions : TxCheck Unit := do
  if transactionIsCoinbase tx then
    rejectIf (tx.vJoinsplit ≠ []) .cbHasJoinsplits
    rejectIf (tx.vShieldedSpend ≠ []) .cbHasSpendDesc
    rejectIf (tx.vShieldedOutput ≠ []) .cbHasOutputDesc
    rejectIf (∃ i ∈ tx.vin.head?, i.scriptSig.size < 2 ∨ 100 < i.scriptSig.size) .cbLength
  else rejectIf (∃ i ∈ tx.vin, outpointIsNull i.prevout = true) .prevoutNull

def domainConsensusCheckTransactionStructural (tx : Option Transaction) : TxCheck Unit :=
  match tx with
  | none => .error .nullTx
  | some tx => do
    checkVersion tx
    checkExistence tx
    checkValues tx
    checkDuplicates tx
    checkCoinbaseRestrictions tx

/-- `check_transaction`; the error is what it puts into the validation state. -/
def checkTransaction : Except TxStructuralFailure Unit :=
  (domainConsensusCheckTransactionStructural (some tx)).mapError TxStructuralErr.failure

end

variable {e : TxStructuralErr}

theorem rejectIf_eq_ok_iff {p : Prop} [Decidable p] :
    rejectIf p e = .ok () ↔ ¬p := refuseIf_eq_ok_iff

theorem rejectIf_bind_eq_ok {p : Prop} [Decidable p] {β : Type}
    {rest : Unit → TxCheck β} {b : β} :
    (rejectIf p e >>= rest) = .ok b ↔ ¬p ∧ rest () = .ok b := refuseIf_bind_eq_ok

variable {tx : Transaction}

theorem checkDuplicates_eq_ok_iff :
    checkDuplicates tx = .ok () ↔ (tx.vin.map (·.prevout)).Nodup ∧ (txSproutNullifiers tx).Nodup ∧
      (txSaplingNullifiers tx).Nodup := by
  rw [checkDuplicates, rejectIf_bind_eq_ok, rejectIf_bind_eq_ok, rejectIf_eq_ok_iff,
    not_not, not_not, not_not]

theorem checkTransaction_eq_ok (h : checkTransaction tx = .ok ()) :
    checkVersion tx = .ok () ∧ checkExistence tx = .ok () ∧ checkValues tx = .ok () ∧
      checkDuplicates tx = .ok () ∧ checkCoinbaseRestrictions tx = .ok () := by
  have hok : domainConsensusCheckTransactionStructural (some tx) = .ok () := by
    unfold checkTransaction at h
    cases hres : domainConsensusCheckTransactionStructural (some tx) with
    | error e => rw [hres] at h; cases h
    | ok u => rfl
  obtain ⟨_, hversion, hok⟩ := bind_eq_ok hok
  obtain ⟨_, hexists, hok⟩ := bind_eq_ok hok
  obtain ⟨_, hvalues, hok⟩ := bind_eq_ok hok
  obtain ⟨_, hduplicates, hcoinbase⟩ := bind_eq_ok hok
  exact ⟨hversion, hexists, hvalues, hduplicates, hcoinbase⟩

end ZClassic
