import ZClassic.Primitives.TransactionWire

/-!
# Signature hashes

`domain_consensus_signature_hash` (`domain/consensus/src/sighash.c`): the message that a signature
of a transaction signs.
-/

namespace ZClassic

/-- BLAKE2b-256 under a personalisation, and the double SHA-256 of Sprout. -/
structure SighashHashes where
  blake2bHashPersonal : (personal data : List UInt8) → UInt256
  hash256 : List UInt8 → UInt256

inductive SigVersion where
  | sprout
  | overwinter
  | sapling
  deriving DecidableEq

def signatureHashVersion (tx : WireTransaction) : SigVersion :=
  if tx.overwintered then
    if tx.versionGroupId = saplingVersionGroupId then .sapling else .overwinter
  else .sprout

def baseSighashNone : UInt32 := 2

def baseSighashSingle : UInt32 := 3

def sighashGetBaseType (hashType : UInt32) : UInt32 := hashType &&& 0x1f

def sighashHasAnyoneCanPay (hashType : UInt32) : Bool := hashType &&& 0x80 != 0

def signsFewOutputs (hashType : UInt32) : Bool :=
  sighashGetBaseType hashType == baseSighashSingle || sighashGetBaseType hashType == baseSighashNone

def personalBytes (s : String) : List UInt8 := s.toList.map fun c => UInt8.ofNat c.toNat

def prevoutsPersonal : List UInt8 := personalBytes "ZcashPrevoutHash"

def sequencePersonal : List UInt8 := personalBytes "ZcashSequencHash"

def outputsPersonal : List UInt8 := personalBytes "ZcashOutputsHash"

def joinsplitsPersonal : List UInt8 := personalBytes "ZcashJSplitsHash"

def shieldedSpendsPersonal : List UInt8 := personalBytes "ZcashSSpendsHash"

def shieldedOutputsPersonal : List UInt8 := personalBytes "ZcashSOutputHash"

def sighashPersonal (consensusBranchId : UInt32) : List UInt8 :=
  personalBytes "ZcashSigHash" ++ leBytes 4 consensusBranchId.toNat

def outpointSerialize (op : Outpoint) : List UInt8 := writeU256 op.hash ++ leBytes 4 op.n.toNat

def spendHashBytes (sd : WireSpend) : List UInt8 :=
  writeU256 sd.cv ++ writeU256 sd.anchor ++ writeU256 sd.nullifier ++ writeU256 sd.rk ++
    sd.zkproof.toList

def prevoutsBytes (tx : WireTransaction) : List UInt8 :=
  tx.vin.flatMap fun txin => outpointSerialize txin.prevout

def sequencesBytes (tx : WireTransaction) : List UInt8 :=
  tx.vin.flatMap fun txin => leBytes 4 txin.sequence.toNat

def joinsplitsBytes (tx : WireTransaction) : List UInt8 :=
  tx.vJoinsplit.flatMap jsDescriptionSerialize ++ writeU256 tx.joinsplitPubkey

structure PrecomputedTxData where
  hashPrevouts : UInt256
  hashSequence : UInt256
  hashOutputs : UInt256
  hashJoinsplits : UInt256
  hashShieldedSpends : UInt256
  hashShieldedOutputs : UInt256

section

variable (H : SighashHashes)

section

variable (tx : WireTransaction)

def getPrevoutHash : UInt256 :=
  H.blake2bHashPersonal prevoutsPersonal (prevoutsBytes tx)

def getSequenceHash : UInt256 :=
  H.blake2bHashPersonal sequencePersonal (sequencesBytes tx)

def getOutputsHash : UInt256 :=
  H.blake2bHashPersonal outputsPersonal (tx.vout.flatMap txOutSerialize)

def getJoinsplitsHash : UInt256 :=
  H.blake2bHashPersonal joinsplitsPersonal (joinsplitsBytes tx)

def getShieldedSpendsHash : UInt256 :=
  H.blake2bHashPersonal shieldedSpendsPersonal (tx.vShieldedSpend.flatMap spendHashBytes)

def getShieldedOutputsHash : UInt256 :=
  H.blake2bHashPersonal shieldedOutputsPersonal
    (tx.vShieldedOutput.flatMap outputDescriptionSerialize)

def precomputeTxData : PrecomputedTxData where
  hashPrevouts := getPrevoutHash H tx
  hashSequence := getSequenceHash H tx
  hashOutputs := getOutputsHash H tx
  hashJoinsplits := if tx.vJoinsplit = [] then 0 else getJoinsplitsHash H tx
  hashShieldedSpends := if tx.vShieldedSpend = [] then 0 else getShieldedSpendsHash H tx
  hashShieldedOutputs := if tx.vShieldedOutput = [] then 0 else getShieldedOutputsHash H tx

end

def cachedOr (cache : Option PrecomputedTxData) (field : PrecomputedTxData → UInt256)
    (fresh : UInt256) : UInt256 :=
  match cache with
  | some data => field data
  | none => fresh

variable (cache : Option PrecomputedTxData) (tx : WireTransaction) (nIn : Option ℕ)
  (hashType : UInt32)

def sighashPrevouts : UInt256 :=
  if sighashHasAnyoneCanPay hashType then 0
  else cachedOr cache PrecomputedTxData.hashPrevouts (getPrevoutHash H tx)

def sighashSequence : UInt256 :=
  if sighashHasAnyoneCanPay hashType || signsFewOutputs hashType then 0
  else cachedOr cache PrecomputedTxData.hashSequence (getSequenceHash H tx)

/-- `SIGHASH_SINGLE` signs the output in the place of the input, if there is one. -/
def sighashOutputs : UInt256 :=
  if signsFewOutputs hashType = false then
    cachedOr cache PrecomputedTxData.hashOutputs (getOutputsHash H tx)
  else if sighashGetBaseType hashType = baseSighashSingle then
    match nIn.bind fun i => tx.vout[i]? with
    | some out => H.blake2bHashPersonal outputsPersonal (txOutSerialize out)
    | none => 0
  else 0

def sighashJoinsplits : UInt256 :=
  if tx.vJoinsplit = [] then 0
  else cachedOr cache PrecomputedTxData.hashJoinsplits (getJoinsplitsHash H tx)

def sighashShieldedSpends : UInt256 :=
  if tx.vShieldedSpend = [] then 0
  else cachedOr cache PrecomputedTxData.hashShieldedSpends (getShieldedSpendsHash H tx)

def sighashShieldedOutputs : UInt256 :=
  if tx.vShieldedOutput = [] then 0
  else cachedOr cache PrecomputedTxData.hashShieldedOutputs (getShieldedOutputsHash H tx)

end

structure ShieldedDigests where
  hashShieldedSpends : UInt256
  hashShieldedOutputs : UInt256
  valueBalance : Int64

structure SignedInput where
  prevout : Outpoint
  scriptCode : Script
  amount : Int64
  sequence : UInt32

/-- What goes into the last hash: the shielded part for Sapling only, an input unless the signature
is that of a JoinSplit. -/
@[ext]
structure SighashMessage where
  header : UInt32
  versionGroupId : UInt32
  hashPrevouts : UInt256
  hashSequence : UInt256
  hashOutputs : UInt256
  hashJoinsplits : UInt256
  shielded : Option ShieldedDigests
  lockTime : UInt32
  expiryHeight : UInt32
  hashType : UInt32
  signedInput : Option SignedInput

def ShieldedDigests.hashBytes (s : ShieldedDigests) : List UInt8 :=
  writeU256 s.hashShieldedSpends ++ writeU256 s.hashShieldedOutputs

def SignedInput.bytes (s : SignedInput) : List UInt8 :=
  outpointSerialize s.prevout ++ writeScript s.scriptCode ++ leBytes 8 s.amount.toUInt64.toNat ++
    leBytes 4 s.sequence.toNat

/-- The order of the calls of `blake2b_update`. -/
def SighashMessage.bytes (m : SighashMessage) : List UInt8 :=
  leBytes 4 m.header.toNat ++ leBytes 4 m.versionGroupId.toNat ++ writeU256 m.hashPrevouts ++
    writeU256 m.hashSequence ++ writeU256 m.hashOutputs ++ writeU256 m.hashJoinsplits ++
    (m.shielded.elim [] ShieldedDigests.hashBytes) ++
    leBytes 4 m.lockTime.toNat ++ leBytes 4 m.expiryHeight.toNat ++
    (m.shielded.elim [] fun s => leBytes 8 s.valueBalance.toUInt64.toNat) ++
    leBytes 4 m.hashType.toNat ++ (m.signedInput.elim [] SignedInput.bytes)

section

variable (H : SighashHashes) (scriptCode : Script) (tx : WireTransaction) (nIn : Option ℕ)
  (hashType : UInt32) (amount : Int64) (consensusBranchId : UInt32)
  (cache : Option PrecomputedTxData)

def sighashMessage (sigversion : SigVersion) (signedInput : Option SignedInput) :
    SighashMessage where
  header := txHeader tx.overwintered tx.version
  versionGroupId := tx.versionGroupId
  hashPrevouts := sighashPrevouts H cache tx hashType
  hashSequence := sighashSequence H cache tx hashType
  hashOutputs := sighashOutputs H cache tx nIn hashType
  hashJoinsplits := sighashJoinsplits H cache tx
  shielded :=
    if sigversion = .sapling then
      some ⟨sighashShieldedSpends H cache tx, sighashShieldedOutputs H cache tx, tx.valueBalance⟩
    else none
  lockTime := tx.lockTime
  expiryHeight := tx.expiryHeight
  hashType
  signedInput

/-- `none` for the input is `NOT_AN_INPUT`; an input that is not there is never read. -/
def sighashOverwinterSapling (sigversion : SigVersion) : Option UInt256 := do
  let signedInput ← match nIn with
    | none => some none
    | some i => tx.vin[i]?.map fun txin => some ⟨txin.prevout, scriptCode, amount, txin.sequence⟩
  let message := sighashMessage H tx nIn hashType cache sigversion signedInput
  return H.blake2bHashPersonal (sighashPersonal consensusBranchId) message.bytes

/-- The scripts of the other inputs are blank, and so are their sequence numbers if not all outputs
are signed. -/
def sproutInputBytes (idx : ℕ) (txin : TxIn) : List UInt8 :=
  outpointSerialize txin.prevout ++
    (if some idx = nIn then writeScript scriptCode else writeCompactSize 0) ++
    (if some idx ≠ nIn ∧ signsFewOutputs hashType then leBytes 4 0
      else leBytes 4 txin.sequence.toNat)

def sproutInputsBytes : Option (List UInt8) :=
  if sighashHasAnyoneCanPay hashType then do
    let i ← nIn
    let txin ← tx.vin[i]?
    return writeCompactSize 1 ++ sproutInputBytes scriptCode nIn hashType i txin
  else
    some (writeCompactSize tx.vin.length ++
      tx.vin.zipIdx.flatMap fun (txin, i) => sproutInputBytes scriptCode nIn hashType i txin)

/-- `SIGHASH_SINGLE` blanks the outputs before the one in the place of the input. -/
def sproutOutputsBytes : Option (List UInt8) :=
  if sighashGetBaseType hashType = baseSighashNone then some (writeCompactSize 0)
  else if sighashGetBaseType hashType = baseSighashSingle then do
    let i ← nIn
    let out ← tx.vout[i]?
    return writeCompactSize (i + 1) ++
      (List.replicate i (txOutSerialize { value := -1 })).flatten ++ txOutSerialize out
  else some (writeList txOutSerialize tx.vout)

def sighashSprout : Option UInt256 := do
  let inputs ← sproutInputsBytes scriptCode tx nIn hashType
  let outputs ← sproutOutputsBytes tx nIn hashType
  return H.hash256 (leBytes 4 tx.version.toUInt32.toNat ++ inputs ++ outputs ++
    leBytes 4 tx.lockTime.toNat ++
    (if 2 ≤ tx.version then
      writeList jsDescriptionSerialize tx.vJoinsplit ++
        (if tx.vJoinsplit.isEmpty then [] else
          writeU256 tx.joinsplitPubkey ++ List.replicate 64 0)
    else []) ++
    leBytes 4 hashType.toNat)

def signatureHash : Option UInt256 :=
  if nIn.any fun i => decide (tx.vin.length ≤ i) then none
  else
    match signatureHashVersion tx with
    | .sprout =>
      if sighashGetBaseType hashType = baseSighashSingle ∧
          nIn.all fun i => decide (tx.vout.length ≤ i) then none
      else sighashSprout H scriptCode tx nIn hashType
    | sigversion =>
      sighashOverwinterSapling H scriptCode tx nIn hashType amount consensusBranchId cache
        sigversion

end

end ZClassic
