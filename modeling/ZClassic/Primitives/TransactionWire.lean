import ZClassic.Consensus.TxStructural
import ZClassic.Lib.ByteStream

/-!
# Transactions on the wire

`struct transaction` with all its bytes, `transaction_serialize` and `transaction_deserialize`
(`lib/primitives/src/transaction.c`).
-/

namespace ZClassic

open List hiding Vector

structure WireSpend where
  cv : UInt256
  anchor : UInt256
  nullifier : UInt256
  rk : UInt256
  zkproof : Vector UInt8 192
  spendAuthSig : Vector UInt8 64

structure WireOutput where
  cv : UInt256
  cm : UInt256
  ephemeralKey : UInt256
  encCiphertext : Vector UInt8 580
  outCiphertext : Vector UInt8 80
  zkproof : Vector UInt8 192

structure WireJoinsplit where
  vpubOld : Int64
  vpubNew : Int64
  anchor : UInt256
  nullifiers : Vector UInt256 2
  commitments : Vector UInt256 2
  ephemeralKey : UInt256
  randomSeed : UInt256
  macs : Vector UInt256 2
  useGroth : Bool
  proof : Vector UInt8 296
  ciphertexts : Vector (Vector UInt8 601) 2

/-- `struct transaction`; the defaults are those of `transaction_init`. -/
structure WireTransaction where
  overwintered : Bool := false
  version : Int32 := 1
  versionGroupId : UInt32 := 0
  vin : List TxIn := []
  vout : List TxOut := []
  lockTime : UInt32 := 0
  expiryHeight : UInt32 := 0
  valueBalance : Int64 := 0
  vShieldedSpend : List WireSpend := []
  vShieldedOutput : List WireOutput := []
  vJoinsplit : List WireJoinsplit := []
  joinsplitPubkey : UInt256 := 0
  joinsplitSig : Vector UInt8 64 := .replicate 64 0
  bindingSig : Vector UInt8 64 := .replicate 64 0
  hash : UInt256 := 0

def WireSpend.toSpend (sd : WireSpend) : SpendDescription where
  anchor := sd.anchor
  nullifier := sd.nullifier

def WireOutput.toOutput (od : WireOutput) : OutputDescription where
  cm := od.cm

def WireJoinsplit.toJoinsplit (jsd : WireJoinsplit) : JsDescription where
  vpubOld := jsd.vpubOld
  vpubNew := jsd.vpubNew
  anchor := jsd.anchor
  nullifiers := jsd.nullifiers
  commitments := jsd.commitments
  useGroth := jsd.useGroth

def WireTransaction.toTransaction (tx : WireTransaction) : Transaction where
  overwintered := tx.overwintered
  version := tx.version
  versionGroupId := tx.versionGroupId
  vin := tx.vin
  vout := tx.vout
  lockTime := tx.lockTime
  expiryHeight := tx.expiryHeight
  valueBalance := tx.valueBalance
  vShieldedSpend := tx.vShieldedSpend.map WireSpend.toSpend
  vShieldedOutput := tx.vShieldedOutput.map WireOutput.toOutput
  vJoinsplit := tx.vJoinsplit.map WireJoinsplit.toJoinsplit
  hash := tx.hash

/-- `transaction_copy`: a transaction with too many inputs or outputs is left without its lists. -/
def transactionCopy (tx : WireTransaction) : WireTransaction :=
  if tx.vin.length ≤ maxTxInputs ∧ tx.vout.length ≤ maxTxOutputs then tx
  else
    { overwintered := tx.overwintered
      version := tx.version
      versionGroupId := tx.versionGroupId
      lockTime := tx.lockTime
      expiryHeight := tx.expiryHeight
      valueBalance := tx.valueBalance
      hash := tx.hash }

def writeU256 (h : UInt256) : List UInt8 := leBytes 32 h.toNat

def writeScript (s : Script) : List UInt8 := writeCompactSize s.size ++ s.data

def txInSerialize (i : TxIn) : List UInt8 :=
  writeU256 i.prevout.hash ++ leBytes 4 i.prevout.n.toNat ++ writeScript i.scriptSig ++
    leBytes 4 i.sequence.toNat

def txOutSerialize (out : TxOut) : List UInt8 :=
  leBytes 8 out.value.toUInt64.toNat ++ writeScript out.scriptPubKey

def spendDescriptionSerialize (sd : WireSpend) : List UInt8 :=
  writeU256 sd.cv ++ writeU256 sd.anchor ++ writeU256 sd.nullifier ++ writeU256 sd.rk ++
    sd.zkproof.toList ++ sd.spendAuthSig.toList

def outputDescriptionSerialize (od : WireOutput) : List UInt8 :=
  writeU256 od.cv ++ writeU256 od.cm ++ writeU256 od.ephemeralKey ++ od.encCiphertext.toList ++
    od.outCiphertext.toList ++ od.zkproof.toList

/-- Only the first bytes of the proof buffer are a Groth16 proof. -/
def jsDescriptionSerialize (jsd : WireJoinsplit) : List UInt8 :=
  leBytes 8 jsd.vpubOld.toUInt64.toNat ++ leBytes 8 jsd.vpubNew.toUInt64.toNat ++
    writeU256 jsd.anchor ++ jsd.nullifiers.toList.flatMap writeU256 ++
    jsd.commitments.toList.flatMap writeU256 ++ writeU256 jsd.ephemeralKey ++
    writeU256 jsd.randomSeed ++ jsd.macs.toList.flatMap writeU256 ++
    jsd.proof.toList.take (if jsd.useGroth then groth16ProofSize else phgrProofSize) ++
    jsd.ciphertexts.toList.flatMap Vector.toList

def txHeader (overwintered : Bool) (version : Int32) : UInt32 :=
  if overwintered then version.toUInt32 ||| 0x80000000 else version.toUInt32

def transactionSerialize (tx : WireTransaction) : List UInt8 :=
  let overwinterV3 := isOverwinterV3 tx.toTransaction
  let saplingV4 := isSaplingV4 tx.toTransaction
  leBytes 4 (txHeader tx.overwintered tx.version).toNat ++
    (if tx.overwintered then leBytes 4 tx.versionGroupId.toNat else []) ++
    writeList txInSerialize tx.vin ++
    writeList txOutSerialize tx.vout ++
    leBytes 4 tx.lockTime.toNat ++
    (if overwinterV3 || saplingV4 then leBytes 4 tx.expiryHeight.toNat else []) ++
    (if saplingV4 then
      leBytes 8 tx.valueBalance.toUInt64.toNat ++
        writeList spendDescriptionSerialize tx.vShieldedSpend ++
        writeList outputDescriptionSerialize tx.vShieldedOutput
    else []) ++
    (if 2 ≤ tx.version then
      writeList jsDescriptionSerialize tx.vJoinsplit ++
        (if tx.vJoinsplit.isEmpty then [] else
          writeU256 tx.joinsplitPubkey ++ tx.joinsplitSig.toList)
    else []) ++
    (if saplingV4 && !(tx.vShieldedSpend.isEmpty && tx.vShieldedOutput.isEmpty) then
      tx.bindingSig.toList
    else [])

def maxShieldedSpends : ℕ := 4096

def maxShieldedOutputs : ℕ := 4096

def maxJoinsplits : ℕ := 4096

def readScript : Reader Script := do
  let n ← readCompactSize
  if h : n ≤ maxScriptSize then
    return ⟨(← readArray n).toList, by rwa [Vector.length_toList]⟩
  else failure

def txInDeserialize : Reader TxIn := do
  let hash ← readU256
  let n ← readU32
  let scriptSig ← readScript
  let sequence ← readU32
  return ⟨⟨hash, n⟩, scriptSig, sequence⟩

def txOutDeserialize : Reader TxOut := do
  let value ← readI64
  let scriptPubKey ← readScript
  return ⟨value, scriptPubKey⟩

def spendDescriptionDeserialize : Reader WireSpend := do
  let cv ← readU256
  let anchor ← readU256
  let nullifier ← readU256
  let rk ← readU256
  let zkproof ← readArray 192
  let spendAuthSig ← readArray 64
  return { cv, anchor, nullifier, rk, zkproof, spendAuthSig }

def outputDescriptionDeserialize : Reader WireOutput := do
  let cv ← readU256
  let cm ← readU256
  let ephemeralKey ← readU256
  let encCiphertext ← readArray 580
  let outCiphertext ← readArray 80
  let zkproof ← readArray 192
  return { cv, cm, ephemeralKey, encCiphertext, outCiphertext, zkproof }

/-- The proof buffer, zero beyond a Groth16 proof. -/
def padProof (proof : Vector UInt8 192) : Vector UInt8 296 :=
  proof ++ (Vector.replicate 104 0 : Vector UInt8 104)

def readProof (useGroth : Bool) : Reader (Vector UInt8 296) :=
  if useGroth then padProof <$> readArray 192 else readArray 296

def jsDescriptionDeserialize (useGroth : Bool) : Reader WireJoinsplit := do
  let vpubOld ← readI64
  let vpubNew ← readI64
  let anchor ← readU256
  let nullifiers ← readVector readU256 2
  let commitments ← readVector readU256 2
  let ephemeralKey ← readU256
  let randomSeed ← readU256
  let macs ← readVector readU256 2
  let proof ← readProof useGroth
  let ciphertexts ← readVector (readArray 601) 2
  return { vpubOld, vpubNew, anchor, nullifiers, commitments, ephemeralKey, randomSeed, macs,
           useGroth, proof, ciphertexts }

def readWhen {α : Type} (p : Prop) [Decidable p] (r : Reader α) (default : α) : Reader α :=
  if p then r else pure default

/-- What a Sapling transaction has after its expiry height. -/
def readShielded : Reader (Int64 × List WireSpend × List WireOutput) := do
  let valueBalance ← readI64
  let spends ← readList maxShieldedSpends spendDescriptionDeserialize
  let outputs ← readList maxShieldedOutputs outputDescriptionDeserialize
  return (valueBalance, spends, outputs)

def readJoinsplits (useGroth : Bool) : Reader (List WireJoinsplit × UInt256 × Vector UInt8 64) := do
  let joinsplits ← readList maxJoinsplits (jsDescriptionDeserialize useGroth)
  let pubkey ← readWhen (joinsplits ≠ []) readU256 0
  let sig ← readWhen (joinsplits ≠ []) (readArray 64) (.replicate 64 0)
  return (joinsplits, pubkey, sig)

/-- The header holds the overwintered flag in its highest bit. -/
def readVersion : Reader (Bool × Int32) := do
  let header ← readU32
  return (header >>> 31 != 0, (header &&& 0x7fffffff).toInt32)

def readBody (overwintered : Bool) (version : Int32) (versionGroupId : UInt32)
    (overwinterV3 saplingV4 : Bool) : Reader WireTransaction := do
  let vin ← readList maxTxInputs txInDeserialize
  let vout ← readList maxTxOutputs txOutDeserialize
  let lockTime ← readU32
  let expiryHeight ← readWhen ((overwinterV3 || saplingV4) = true) readU32 0
  let (valueBalance, vShieldedSpend, vShieldedOutput) ←
    readWhen (saplingV4 = true) readShielded (0, [], [])
  let (vJoinsplit, joinsplitPubkey, joinsplitSig) ←
    readWhen (2 ≤ version) (readJoinsplits (overwintered && decide (4 ≤ version)))
      ([], 0, .replicate 64 0)
  let bindingSig ←
    readWhen ((saplingV4 && !(vShieldedSpend.isEmpty && vShieldedOutput.isEmpty)) = true)
      (readArray 64) (.replicate 64 0)
  return { overwintered, version, versionGroupId, vin, vout, lockTime, expiryHeight, valueBalance,
           vShieldedSpend, vShieldedOutput, vJoinsplit, joinsplitPubkey, joinsplitSig, bindingSig }

def readTransaction : Reader WireTransaction := do
  let (overwintered, version) ← readVersion
  let versionGroupId ← readWhen (overwintered = true) readU32 0
  let overwinterV3 := overwintered && versionGroupId == overwinterVersionGroupId && version == 3
  let saplingV4 := overwintered && versionGroupId == saplingVersionGroupId && version == 4
  guard (overwintered = true → (overwinterV3 || saplingV4) = true)
  readBody overwintered version versionGroupId overwinterV3 saplingV4

def transactionComputeHash (hash256 : List UInt8 → UInt256) (tx : WireTransaction) :
    WireTransaction :=
  { tx with hash := hash256 (transactionSerialize tx) }

def transactionDeserialize (hash256 : List UInt8 → UInt256) : Reader WireTransaction :=
  transactionComputeHash hash256 <$> readTransaction

section Size

@[simp]
theorem writeU256_length (h : UInt256) : (writeU256 h).length = 32 := leBytes_length ..

@[simp]
theorem compactSizeLength_le (n : ℕ) : compactSizeLength n ≤ 9 := by
  unfold compactSizeLength
  split_ifs <;> omega

theorem writeCompactSize_length (n : ℕ) : (writeCompactSize n).length = compactSizeLength n := by
  unfold writeCompactSize compactSizeLength
  split_ifs <;> simp

@[simp]
theorem writeList_length {α : Type} (f : α → List UInt8) (xs : List α) :
    (writeList f xs).length = compactSizeLength xs.length + (xs.map fun x => (f x).length).sum := by
  rw [writeList, length_append, writeCompactSize_length, length_flatMap]

@[simp]
theorem writeScript_length (s : Script) :
    (writeScript s).length = compactSizeLength s.size + s.size := by
  rw [writeScript, length_append, writeCompactSize_length, ← Script.size]

@[simp]
theorem txInSerialize_length (i : TxIn) : (txInSerialize i).length = txInSize i := by
  simp only [txInSerialize, txInSize, length_append, writeU256_length, leBytes_length,
    writeScript_length]
  omega

@[simp]
theorem txOutSerialize_length (out : TxOut) : (txOutSerialize out).length = txOutSize out := by
  simp only [txOutSerialize, txOutSize, length_append, leBytes_length, writeScript_length]
  omega

@[simp]
theorem spendDescriptionSerialize_length (sd : WireSpend) :
    (spendDescriptionSerialize sd).length = spendDescriptionSize := by
  simp [spendDescriptionSerialize, spendDescriptionSize, groth16ProofSize]

@[simp]
theorem outputDescriptionSerialize_length (od : WireOutput) :
    (outputDescriptionSerialize od).length = outputDescriptionSize := by
  simp [outputDescriptionSerialize, outputDescriptionSize, groth16ProofSize]

@[simp]
theorem jsDescriptionSerialize_length (jsd : WireJoinsplit) :
    (jsDescriptionSerialize jsd).length = jsDescriptionSize jsd.toJoinsplit := by
  cases hgroth : jsd.useGroth <;>
    simp [jsDescriptionSerialize, jsDescriptionSize, WireJoinsplit.toJoinsplit,
      length_flatMap, groth16ProofSize, phgrProofSize, hgroth]

theorem serialize_length (tx : WireTransaction) :
    (transactionSerialize tx).length = transactionSerializeSize tx.toTransaction := by
  simp only [transactionSerialize, length_append, apply_ite length, leBytes_length,
    writeList_length, txInSerialize_length, txOutSerialize_length, length_nil]
  simp [transactionSerializeSize, WireTransaction.toTransaction, Function.comp_def]
  rfl

end Size

def writtenProof (useGroth : Bool) (proof : Vector UInt8 296) : Vector UInt8 296 :=
  if useGroth then padProof (proof.take 192) else proof

def WireJoinsplit.written (jsd : WireJoinsplit) : WireJoinsplit :=
  { jsd with proof := writtenProof jsd.useGroth jsd.proof }

/-- The transaction with its initial values in the fields that its version does not write. -/
def WireTransaction.written (tx : WireTransaction) : WireTransaction :=
  let saplingV4 := isSaplingV4 tx.toTransaction
  let vShieldedSpend := if saplingV4 then tx.vShieldedSpend else []
  let vShieldedOutput := if saplingV4 then tx.vShieldedOutput else []
  let vJoinsplit := if 2 ≤ tx.version then tx.vJoinsplit.map WireJoinsplit.written else []
  { tx with
    versionGroupId := if tx.overwintered then tx.versionGroupId else 0
    expiryHeight :=
      if isOverwinterV3 tx.toTransaction || saplingV4 then tx.expiryHeight else 0
    valueBalance := if saplingV4 then tx.valueBalance else 0
    vShieldedSpend, vShieldedOutput, vJoinsplit
    joinsplitPubkey := if vJoinsplit ≠ [] then tx.joinsplitPubkey else 0
    joinsplitSig := if vJoinsplit ≠ [] then tx.joinsplitSig else .replicate 64 0
    bindingSig :=
      if saplingV4 && !(vShieldedSpend.isEmpty && vShieldedOutput.isEmpty) then tx.bindingSig
      else .replicate 64 0 }

/-- What `transaction_deserialize` asks of the transactions it accepts. -/
structure WireTransaction.WellFormed (tx : WireTransaction) : Prop where
  version_nonneg : 0 ≤ tx.version
  known : tx.overwintered = true →
    (isOverwinterV3 tx.toTransaction || isSaplingV4 tx.toTransaction) = true
  vin_le : tx.vin.length ≤ maxTxInputs
  vout_le : tx.vout.length ≤ maxTxOutputs
  spends_le : tx.vShieldedSpend.length ≤ maxShieldedSpends
  outputs_le : tx.vShieldedOutput.length ≤ maxShieldedOutputs
  joinsplits_le : tx.vJoinsplit.length ≤ maxJoinsplits
  useGroth : ∀ jsd ∈ tx.vJoinsplit, jsd.useGroth = (tx.overwintered && decide (4 ≤ tx.version))

open WireTransaction

theorem WireTransaction.WellFormed.of_transparent {tx : WireTransaction}
    (hversion : 0 ≤ tx.version) (hflag : tx.overwintered = false)
    (hvin : tx.vin.length ≤ maxTxInputs) (hvout : tx.vout.length ≤ maxTxOutputs)
    (hspends : tx.vShieldedSpend = []) (houtputs : tx.vShieldedOutput = [])
    (hjoinsplits : tx.vJoinsplit = []) : tx.WellFormed where
  version_nonneg := hversion
  known := by simp [hflag]
  vin_le := hvin
  vout_le := hvout
  spends_le := by simp [hspends]
  outputs_le := by simp [houtputs]
  joinsplits_le := by simp [hjoinsplits]
  useGroth := by simp [hjoinsplits]

section RoundTrip

theorem reads_script (s : Script) : Reads readScript (writeScript s) s := by
  have hsize : s.size < 2 ^ 64 := s.size_le.trans_lt (by decide)
  refine (reads_compactSize hsize).bind ?_
  rw [dif_pos (show s.size ≤ maxScriptSize from s.size_le)]
  exact (reads_array ⟨s.data.toArray, rfl⟩).bind_pure

theorem reads_txIn (i : TxIn) : Reads txInDeserialize (txInSerialize i) i := by
  apply (reads_u256 i.prevout.hash).bind
  apply (reads_u32 i.prevout.n).bind
  apply (reads_script i.scriptSig).bind
  exact (reads_u32 i.sequence).bind_pure

theorem reads_txOut (out : TxOut) : Reads txOutDeserialize (txOutSerialize out) out := by
  apply (reads_i64 out.value).bind
  exact (reads_script out.scriptPubKey).bind_pure

theorem reads_spendDescription (sd : WireSpend) :
    Reads spendDescriptionDeserialize (spendDescriptionSerialize sd) sd := by
  apply (reads_u256 sd.cv).bind
  apply (reads_u256 sd.anchor).bind
  apply (reads_u256 sd.nullifier).bind
  apply (reads_u256 sd.rk).bind
  apply (reads_array sd.zkproof).bind
  exact (reads_array sd.spendAuthSig).bind_pure

theorem reads_outputDescription (od : WireOutput) :
    Reads outputDescriptionDeserialize (outputDescriptionSerialize od) od := by
  simp only [outputDescriptionSerialize, append_assoc]
  apply (reads_u256 od.cv).bind
  apply (reads_u256 od.cm).bind
  apply (reads_u256 od.ephemeralKey).bind
  apply (reads_array od.encCiphertext).bind
  apply (reads_array od.outCiphertext).bind
  exact (reads_array od.zkproof).bind_pure

theorem reads_proof (useGroth : Bool) (proof : Vector UInt8 296) :
    Reads (readProof useGroth)
      (proof.toList.take (if useGroth then groth16ProofSize else phgrProofSize))
      (writtenProof useGroth proof) := by
  cases useGroth with
  | false =>
    have hall : proof.toList.take phgrProofSize = proof.toList :=
      take_of_length_le proof.length_toList.le
    change Reads (readArray 296) (proof.toList.take phgrProofSize) proof
    rw [hall]
    exact reads_array proof
  | true =>
    have hread := (reads_array (n := 192) (proof.take 192)).map padProof
    rwa [show (proof.take 192).toList = proof.toList.take 192 from Vector.toList_take] at hread

variable (jsd : WireJoinsplit) (overwintered : Bool)

theorem reads_jsDescription :
    Reads (jsDescriptionDeserialize jsd.useGroth) (jsDescriptionSerialize jsd) jsd.written := by
  simp only [jsDescriptionSerialize, append_assoc]
  apply (reads_i64 jsd.vpubOld).bind
  apply (reads_i64 jsd.vpubNew).bind
  apply (reads_u256 jsd.anchor).bind
  apply (reads_vector jsd.nullifiers fun h _ => reads_u256 h).bind
  apply (reads_vector jsd.commitments fun h _ => reads_u256 h).bind
  apply (reads_u256 jsd.ephemeralKey).bind
  apply (reads_u256 jsd.randomSeed).bind
  apply (reads_vector jsd.macs fun h _ => reads_u256 h).bind
  apply (reads_proof jsd.useGroth jsd.proof).bind
  exact (reads_vector jsd.ciphertexts fun c _ => reads_array c).bind_pure

theorem reads_when {α : Type} {p : Prop} [Decidable p] {r : Reader α} {default x : α}
    {bytes : List UInt8} (h : p → Reads r bytes x) :
    Reads (readWhen p r default) (if p then bytes else []) (if p then x else default) := by
  unfold readWhen
  split_ifs with hp
  · exact h hp
  · exact reads_pure default

variable {version : Int32}

section

variable (h : 0 ≤ version)

include h

theorem toUInt32_toNat_lt : version.toUInt32.toNat < 2 ^ 31 := by
  have hnonneg : 0 ≤ version.toBitVec.toInt := Int32.le_iff_toInt_le.mp h
  change version.toBitVec.toNat < 2 ^ 31
  rw [BitVec.toInt_eq_toNat_cond] at hnonneg
  split_ifs at hnonneg <;> omega

theorem txHeader_toNat :
    (txHeader overwintered version).toNat =
      2 ^ 31 * overwintered.toNat + version.toUInt32.toNat := by
  cases overwintered with
  | false => simp [txHeader]
  | true =>
    rw [Nat.two_pow_add_eq_or_of_lt (toUInt32_toNat_lt h)]
    change (version.toUInt32 ||| 0x80000000).toNat = _
    rw [UInt32.toNat_or, Nat.or_comm]
    rfl

theorem txHeader_overwintered : (txHeader overwintered version >>> 31 != 0) = overwintered := by
  have hlt := toUInt32_toNat_lt h
  have hshift : txHeader overwintered version >>> 31 = if overwintered then 1 else 0 := by
    apply UInt32.toNat_inj.mp
    rw [UInt32.toNat_shiftRight, txHeader_toNat _ h]
    rw [Nat.shiftRight_eq_div_pow]
    cases overwintered <;> simp <;> omega
  rw [hshift]
  cases overwintered <;> rfl

theorem txHeader_version : (txHeader overwintered version &&& 0x7fffffff).toInt32 = version := by
  have hlt := toUInt32_toNat_lt h
  have hmask : txHeader overwintered version &&& 0x7fffffff = version.toUInt32 := by
    apply UInt32.toNat_inj.mp
    rw [UInt32.toNat_and, txHeader_toNat _ h]
    change _ &&& (2 ^ 31 - 1) = _
    rw [Nat.and_two_pow_sub_one_eq_mod]
    omega
  rw [hmask]
  rfl

theorem reads_version :
    Reads readVersion (leBytes 4 (txHeader overwintered version).toNat)
      (overwintered, version) := by
  have hread := (reads_u32 (txHeader overwintered version)).bind_pure
    (f := fun header : UInt32 => (header >>> 31 != 0, (header &&& 0x7fffffff).toInt32))
  rwa [txHeader_overwintered _ h, txHeader_version _ h] at hread

end

variable {tx : WireTransaction}

section

variable (h : tx.WellFormed)

include h

theorem reads_shielded :
    Reads readShielded
      (leBytes 8 tx.valueBalance.toUInt64.toNat ++
        writeList spendDescriptionSerialize tx.vShieldedSpend ++
        writeList outputDescriptionSerialize tx.vShieldedOutput)
      (tx.valueBalance, tx.vShieldedSpend, tx.vShieldedOutput) := by
  rw [append_assoc]
  apply (reads_i64 tx.valueBalance).bind
  apply (reads_list h.spends_le (by decide) reads_spendDescription).bind
  exact (reads_list h.outputs_le (by decide) reads_outputDescription).bind_pure

theorem reads_shielded_when :
    Reads (readWhen (isSaplingV4 tx.toTransaction = true) readShielded (0, [], []))
      (if isSaplingV4 tx.toTransaction then
        leBytes 8 tx.valueBalance.toUInt64.toNat ++
          writeList spendDescriptionSerialize tx.vShieldedSpend ++
          writeList outputDescriptionSerialize tx.vShieldedOutput
      else [])
      (tx.written.valueBalance, tx.written.vShieldedSpend, tx.written.vShieldedOutput) := by
  unfold readWhen written
  cases isSaplingV4 tx.toTransaction with
  | false => exact reads_pure _
  | true => exact reads_shielded h

theorem reads_joinsplits (hversion : 2 ≤ tx.version) :
    Reads (readJoinsplits (tx.overwintered && decide (4 ≤ tx.version)))
      (writeList jsDescriptionSerialize tx.vJoinsplit ++
        (if tx.vJoinsplit.isEmpty then [] else
          writeU256 tx.joinsplitPubkey ++ tx.joinsplitSig.toList))
      (tx.written.vJoinsplit, tx.written.joinsplitPubkey, tx.written.joinsplitSig) := by
  have hlist : Reads (readList maxJoinsplits
      (jsDescriptionDeserialize (tx.overwintered && decide (4 ≤ tx.version))))
      (writeList jsDescriptionSerialize tx.vJoinsplit)
      (tx.vJoinsplit.map WireJoinsplit.written) := by
    refine reads_list_map h.joinsplits_le (by decide) fun jsd hmem => ?_
    rw [← h.useGroth jsd hmem]
    exact reads_jsDescription jsd
  simp only [written, if_pos hversion]
  apply hlist.bind
  cases tx.vJoinsplit with
  | nil => exact reads_pure _
  | cons jsd jsds =>
    apply (reads_u256 tx.joinsplitPubkey).bind
    exact (reads_array tx.joinsplitSig).bind_pure

theorem reads_joinsplits_when :
    Reads
      (readWhen (2 ≤ tx.version) (readJoinsplits (tx.overwintered && decide (4 ≤ tx.version)))
        ([], 0, .replicate 64 0))
      (if 2 ≤ tx.version then
        writeList jsDescriptionSerialize tx.vJoinsplit ++
          (if tx.vJoinsplit.isEmpty then [] else
            writeU256 tx.joinsplitPubkey ++ tx.joinsplitSig.toList)
      else [])
      (tx.written.vJoinsplit, tx.written.joinsplitPubkey, tx.written.joinsplitSig) := by
  unfold readWhen
  by_cases hversion : 2 ≤ tx.version
  · rw [if_pos hversion, if_pos hversion]
    exact reads_joinsplits h hversion
  · rw [if_neg hversion, if_neg hversion]
    simp only [written, if_neg hversion]
    exact reads_pure _

end

theorem reads_bindingSig (tx : WireTransaction) :
    Reads
      (readWhen ((isSaplingV4 tx.toTransaction &&
        !(tx.written.vShieldedSpend.isEmpty && tx.written.vShieldedOutput.isEmpty)) = true)
        (readArray 64) (.replicate 64 0))
      (if isSaplingV4 tx.toTransaction &&
          !(tx.vShieldedSpend.isEmpty && tx.vShieldedOutput.isEmpty) then
        tx.bindingSig.toList
      else [])
      tx.written.bindingSig := by
  unfold written
  cases isSaplingV4 tx.toTransaction with
  | false => exact reads_pure _
  | true => exact reads_when fun _ => reads_array tx.bindingSig

theorem written_isOverwinterV3 (tx : WireTransaction) :
    (tx.overwintered && tx.written.versionGroupId == overwinterVersionGroupId &&
      tx.version == 3) = isOverwinterV3 tx.toTransaction := by
  simp only [written, isOverwinterV3, toTransaction]
  cases tx.overwintered <;> rfl

theorem written_isSaplingV4 (tx : WireTransaction) :
    (tx.overwintered && tx.written.versionGroupId == saplingVersionGroupId &&
      tx.version == 4) = isSaplingV4 tx.toTransaction := by
  simp only [written, isSaplingV4, toTransaction]
  cases tx.overwintered <;> rfl

theorem reads_transaction (h : tx.WellFormed) :
    Reads readTransaction (transactionSerialize tx) { tx.written with hash := 0 } := by
  have hgroup : Reads (readWhen (tx.overwintered = true) readU32 0)
      (if tx.overwintered then leBytes 4 tx.versionGroupId.toNat else [])
      tx.written.versionGroupId := reads_when fun _ => reads_u32 tx.versionGroupId
  simp only [transactionSerialize]
  rw [append_assoc, append_assoc, append_assoc, append_assoc,
    append_assoc, append_assoc, append_assoc, append_assoc]
  apply (reads_version tx.overwintered h.version_nonneg).bind
  apply hgroup.bind
  simp only [written_isOverwinterV3, written_isSaplingV4]
  refine .guard_bind h.known ?_
  apply (reads_list h.vin_le (by decide) reads_txIn).bind
  apply (reads_list h.vout_le (by decide) reads_txOut).bind
  apply (reads_u32 tx.lockTime).bind
  apply (reads_when fun _ => reads_u32 tx.expiryHeight).bind
  apply (reads_shielded_when h).bind
  apply (reads_joinsplits_when h).bind
  exact (reads_bindingSig tx).bind_pure

theorem jsDescription_written :
    jsDescriptionSerialize jsd.written = jsDescriptionSerialize jsd := by
  have hproof : (writtenProof jsd.useGroth jsd.proof).toList.take
      (if jsd.useGroth then groth16ProofSize else phgrProofSize) =
      jsd.proof.toList.take (if jsd.useGroth then groth16ProofSize else phgrProofSize) := by
    cases jsd.useGroth with
    | false => rfl
    | true =>
      change (jsd.proof.take 192 ++ (Vector.replicate 104 0 : Vector UInt8 104)).toList.take 192 = _
      rw [Vector.toList_append, take_left' Vector.length_toList]
      exact Vector.toList_take
  unfold jsDescriptionSerialize
  congr 2

theorem transactionSerialize_written (tx : WireTransaction) (hash : UInt256) :
    transactionSerialize { tx.written with hash } = transactionSerialize tx := by
  have hv3 : isOverwinterV3 { tx.written with hash }.toTransaction =
    isOverwinterV3 tx.toTransaction := written_isOverwinterV3 tx
  have hv4 : isSaplingV4 { tx.written with hash }.toTransaction =
    isSaplingV4 tx.toTransaction := written_isSaplingV4 tx
  simp only [transactionSerialize, hv3, hv4]
  -- block by block: what its condition leaves out on one side is not written on the other
  refine congrArg₂ (· ++ ·) (congrArg₂ (· ++ ·) (congrArg₂ (· ++ ·) (congrArg₂ (· ++ ·)
    ?head ?expiry) ?shielded) ?joinsplits) ?binding
  case head =>
    unfold written
    cases tx.overwintered <;> rfl
  case expiry =>
    simp only [written]
    cases isOverwinterV3 tx.toTransaction || isSaplingV4 tx.toTransaction <;> rfl
  case shielded =>
    unfold written
    cases isSaplingV4 tx.toTransaction <;> rfl
  case joinsplits =>
    change (if 2 ≤ tx.version then _ else _) = _
    by_cases hversion : 2 ≤ tx.version
    · rw [if_pos hversion, if_pos hversion]
      simp only [written, if_pos hversion]
      cases tx.vJoinsplit with
      | nil => rfl
      | cons jsd jsds =>
        simp [writeList, flatMap_map, jsDescription_written]
    · rw [if_neg hversion, if_neg hversion]
  case binding =>
    unfold written
    cases isSaplingV4 tx.toTransaction with
    | false => rfl
    | true =>
      cases htx : !(tx.vShieldedSpend.isEmpty && tx.vShieldedOutput.isEmpty) <;> simp [htx]

theorem reads_transactionDeserialize (hash256 : List UInt8 → UInt256) (h : tx.WellFormed) :
    Reads (transactionDeserialize hash256) (transactionSerialize tx)
      { tx.written with hash := hash256 (transactionSerialize tx) } := by
  have hread := (reads_transaction h).map (transactionComputeHash hash256)
  rwa [transactionComputeHash, transactionSerialize_written] at hread

/-- A transaction that carries its own hash comes back as it was exactly when it has nothing in the
fields that are not written. -/
theorem transactionDeserialize_eq_self_iff (hash256 : List UInt8 → UInt256) (h : tx.WellFormed) :
    (transactionDeserialize hash256).run
        (transactionSerialize (transactionComputeHash hash256 tx)) =
        some (transactionComputeHash hash256 tx, []) ↔ tx.written = tx := by
  have hread := reads_transactionDeserialize hash256 h []
  rw [append_nil] at hread
  change (transactionDeserialize hash256).run (transactionSerialize tx) = _ ↔ _
  rw [hread, Option.some_inj, Prod.mk.injEq, and_iff_left rfl]
  constructor
  · intro heq
    exact congrArg (fun t : WireTransaction => { t with hash := tx.hash }) heq
  · intro heq
    rw [heq]
    rfl

end RoundTrip

end ZClassic
