import Mathlib.Data.List.Nodup
import ZClassic.Consensus.Sighash

/-!
# What a signature hash commits to

Two signature hashes of Overwinter or Sapling transactions are equal exactly when the signed fields
are, as long as the hash has no collision among what the two computations feed it.
-/

namespace ZClassic

open List Function SighashMessage

/-- A digest that is all zeros where nothing is hashed. -/
def SighashHashes.digest (H : SighashHashes) (personal : List UInt8) : Option (List UInt8) → UInt256
  | none => 0
  | some data => H.blake2bHashPersonal personal data

/-- No collision among the data that `S` names under their personalisations, and no zero digest. -/
structure SighashHashes.CollisionFree (H : SighashHashes)
    (S : List (List UInt8 × Option (List UInt8))) : Prop where
  inj : ∀ personal x y, (personal, some x) ∈ S → (personal, some y) ∈ S →
    H.blake2bHashPersonal personal x = H.blake2bHashPersonal personal y → x = y
  ne_zero : ∀ personal x, (personal, some x) ∈ S → H.blake2bHashPersonal personal x ≠ 0

theorem SighashHashes.CollisionFree.digest_inj {H : SighashHashes}
    {S : List (List UInt8 × Option (List UInt8))} (h : H.CollisionFree S) {personal : List UInt8}
    {x y : Option (List UInt8)} (hx : (personal, x) ∈ S) (hy : (personal, y) ∈ S)
    (heq : H.digest personal x = H.digest personal y) : x = y := by
  cases x with
  | none =>
    cases y with
    | none => rfl
    | some y => exact absurd heq.symm (h.ne_zero personal y hy)
  | some x =>
    cases y with
    | none => exact absurd heq (h.ne_zero personal x hx)
    | some y => exact congrArg some (h.inj personal x y hx hy heq)

/-- A transaction to sign, with the place of an input that it has. -/
structure SigningInput where
  tx : WireTransaction
  nIn : Fin tx.vin.length
  scriptCode : Script
  amount : Int64
  hashType : UInt32

def WireSpend.withoutSignature (sd : WireSpend) : WireSpend :=
  { sd with spendAuthSig := .replicate 64 0 }

/-- The fields that a signature covers. A list is `none` if the hash type leaves it out, the
JoinSplits if there are none, and the shielded part if the signature is not one of Sapling. -/
@[ext]
structure SignedFields where
  header : UInt32
  versionGroupId : UInt32
  prevouts : Option (List Outpoint)
  sequences : Option (List UInt32)
  outputs : Option (List TxOut)
  joinsplits : Option (List UInt8 × UInt256)
  shielded : Option (List WireSpend × List WireOutput × Int64)
  lockTime : UInt32
  expiryHeight : UInt32
  hashType : UInt32
  signedInput : SignedInput

namespace SigningInput

variable (a b : SigningInput)

def sigversion : SigVersion := signatureHashVersion a.tx

def signedOutputs : Option (List TxOut) :=
  if signsFewOutputs a.hashType = false then some a.tx.vout
  else if sighashGetBaseType a.hashType = baseSighashSingle then
    a.tx.vout[a.nIn.val]?.map fun out => [out]
  else none

def signedInput : SignedInput where
  prevout := a.tx.vin[a.nIn].prevout
  scriptCode := a.scriptCode
  amount := a.amount
  sequence := a.tx.vin[a.nIn].sequence

def signedFields : SignedFields where
  header := txHeader a.tx.overwintered a.tx.version
  versionGroupId := a.tx.versionGroupId
  prevouts :=
    if sighashHasAnyoneCanPay a.hashType then none else some (a.tx.vin.map TxIn.prevout)
  sequences :=
    if sighashHasAnyoneCanPay a.hashType || signsFewOutputs a.hashType then none
    else some (a.tx.vin.map TxIn.sequence)
  outputs := a.signedOutputs
  joinsplits :=
    if a.tx.vJoinsplit = [] then none
    else some (a.tx.vJoinsplit.flatMap jsDescriptionSerialize, a.tx.joinsplitPubkey)
  shielded :=
    if a.sigversion = .sapling then
      some (a.tx.vShieldedSpend.map WireSpend.withoutSignature, a.tx.vShieldedOutput,
        a.tx.valueBalance)
    else none
  lockTime := a.tx.lockTime
  expiryHeight := a.tx.expiryHeight
  hashType := a.hashType
  signedInput := a.signedInput

def signatureHash (H : SighashHashes) (consensusBranchId : UInt32)
    (cache : Option PrecomputedTxData) : Option UInt256 :=
  ZClassic.signatureHash H a.scriptCode a.tx (some a.nIn) a.hashType a.amount consensusBranchId
    cache

def prevoutsPart : Option (List UInt8) :=
  if sighashHasAnyoneCanPay a.hashType then none else some (prevoutsBytes a.tx)

def sequencesPart : Option (List UInt8) :=
  if sighashHasAnyoneCanPay a.hashType || signsFewOutputs a.hashType then none
  else some (sequencesBytes a.tx)

def outputsPart : Option (List UInt8) :=
  a.signedOutputs.map fun outs => outs.flatMap txOutSerialize

def joinsplitsPart : Option (List UInt8) :=
  if a.tx.vJoinsplit = [] then none else some (joinsplitsBytes a.tx)

def spendsPart : Option (List UInt8) :=
  if a.tx.vShieldedSpend = [] then none else some (a.tx.vShieldedSpend.flatMap spendHashBytes)

def shieldedOutputsPart : Option (List UInt8) :=
  if a.tx.vShieldedOutput = [] then none
  else some (a.tx.vShieldedOutput.flatMap outputDescriptionSerialize)

def message (H : SighashHashes) : SighashMessage where
  header := txHeader a.tx.overwintered a.tx.version
  versionGroupId := a.tx.versionGroupId
  hashPrevouts := H.digest prevoutsPersonal a.prevoutsPart
  hashSequence := H.digest sequencePersonal a.sequencesPart
  hashOutputs := H.digest outputsPersonal a.outputsPart
  hashJoinsplits := H.digest joinsplitsPersonal a.joinsplitsPart
  shielded :=
    if a.sigversion = .sapling then
      some ⟨H.digest shieldedSpendsPersonal a.spendsPart,
        H.digest shieldedOutputsPersonal a.shieldedOutputsPart, a.tx.valueBalance⟩
    else none
  lockTime := a.tx.lockTime
  expiryHeight := a.tx.expiryHeight
  hashType := a.hashType
  signedInput := some a.signedInput

def hashed (H : SighashHashes) (consensusBranchId : UInt32) :
    List (List UInt8 × Option (List UInt8)) :=
  [(prevoutsPersonal, a.prevoutsPart), (sequencePersonal, a.sequencesPart),
    (outputsPersonal, a.outputsPart), (joinsplitsPersonal, a.joinsplitsPart),
    (shieldedSpendsPersonal, a.spendsPart), (shieldedOutputsPersonal, a.shieldedOutputsPart),
    (sighashPersonal consensusBranchId, some (a.message H).bytes)]

end SigningInput

variable {field : PrecomputedTxData → UInt256} {rest rest' : List UInt8} {s t : SignedInput}
  {useGroth : Bool}

section Spec

variable {H : SighashHashes} {a : SigningInput} {cache : Option PrecomputedTxData}

theorem cachedOr_eq {fresh : UInt256} {tx : WireTransaction}
    (hcache : ∀ data ∈ cache, data = precomputeTxData H tx)
    (hfresh : field (precomputeTxData H tx) = fresh) : cachedOr cache field fresh = fresh := by
  cases cache with
  | none => rfl
  | some data =>
    rw [hcache data rfl] at *
    exact hfresh

variable (hcache : ∀ data ∈ cache, data = precomputeTxData H a.tx)

include hcache

theorem cachedOr_digest {p : Prop} [Decidable p] {personal data : List UInt8}
    (hfield : ¬p → field (precomputeTxData H a.tx) = H.blake2bHashPersonal personal data) :
    (if p then 0 else cachedOr cache field (H.blake2bHashPersonal personal data)) =
      H.digest personal (if p then none else some data) := by
  split_ifs with hp
  · rfl
  · exact cachedOr_eq hcache (hfield hp)

theorem sighashOutputs_eq :
    sighashOutputs H cache a.tx (some a.nIn) a.hashType =
      H.digest outputsPersonal a.outputsPart := by
  unfold sighashOutputs SigningInput.outputsPart SigningInput.signedOutputs
  split_ifs with hfew hsingle
  · exact cachedOr_eq hcache rfl
  · rw [Option.bind_some]
    cases a.tx.vout[a.nIn.val]? with
    | none => rfl
    | some out =>
      change _ = H.blake2bHashPersonal outputsPersonal ([out].flatMap txOutSerialize)
      rw [flatMap_singleton]
  · rfl

theorem sighashMessage_eq :
    sighashMessage H a.tx (some a.nIn) a.hashType cache a.sigversion (some a.signedInput) =
      a.message H := by
  have hprevouts : sighashPrevouts H cache a.tx a.hashType =
      H.digest prevoutsPersonal a.prevoutsPart := cachedOr_digest hcache fun _ => rfl
  have hsequence : sighashSequence H cache a.tx a.hashType =
      H.digest sequencePersonal a.sequencesPart := cachedOr_digest hcache fun _ => rfl
  have hjoinsplits : sighashJoinsplits H cache a.tx =
      H.digest joinsplitsPersonal a.joinsplitsPart := cachedOr_digest hcache fun hne => if_neg hne
  have hspends : sighashShieldedSpends H cache a.tx =
      H.digest shieldedSpendsPersonal a.spendsPart := cachedOr_digest hcache fun hne => if_neg hne
  have houtputs : sighashShieldedOutputs H cache a.tx =
      H.digest shieldedOutputsPersonal a.shieldedOutputsPart :=
    cachedOr_digest hcache fun hne => if_neg hne
  simp only [sighashMessage, SigningInput.message, hprevouts, hsequence, sighashOutputs_eq hcache,
    hjoinsplits, hspends, houtputs]

theorem SigningInput.signatureHash_eq (hversion : a.sigversion ≠ .sprout)
    (consensusBranchId : UInt32) :
    a.signatureHash H consensusBranchId cache =
      some (H.blake2bHashPersonal (sighashPersonal consensusBranchId) (a.message H).bytes) := by
  have hrange : ¬((some a.nIn.val).any fun i => decide (a.tx.vin.length ≤ i)) = true := by
    simp [Nat.not_le.mpr a.nIn.isLt]
  have hinput : sighashOverwinterSapling H a.scriptCode a.tx (some a.nIn.val) a.hashType a.amount
      consensusBranchId cache a.sigversion =
      some (H.blake2bHashPersonal (sighashPersonal consensusBranchId) (a.message H).bytes) := by
    rw [← sighashMessage_eq hcache]
    simp [sighashOverwinterSapling, signedInput]
  rw [signatureHash, ZClassic.signatureHash, if_neg hrange]
  change sighashOverwinterSapling _ _ _ _ _ _ _ _ (signatureHashVersion a.tx) = _ at hinput
  cases hv : signatureHashVersion a.tx with
  | sprout => exact absurd hv hversion
  | overwinter => rw [← hinput, hv]
  | sapling => rw [← hinput, hv]

end Spec

section Inj

theorem u32_append_inj {x y : UInt32} :
    leBytes 4 x.toNat ++ rest = leBytes 4 y.toNat ++ rest' ↔ x = y ∧ rest = rest' :=
  append_inj_iff_of_reads reads_u32

theorem i64_append_inj {x y : Int64} :
    leBytes 8 x.toUInt64.toNat ++ rest = leBytes 8 y.toUInt64.toNat ++ rest' ↔
      x = y ∧ rest = rest' :=
  append_inj_iff_of_reads reads_i64

theorem u256_append_inj {x y : UInt256} :
    writeU256 x ++ rest = writeU256 y ++ rest' ↔ x = y ∧ rest = rest' :=
  append_inj_iff_of_reads reads_u256

theorem script_append_inj {x y : Script} :
    writeScript x ++ rest = writeScript y ++ rest' ↔ x = y ∧ rest = rest' :=
  append_inj_iff_of_reads reads_script

theorem SignedInput.bytes_inj : s.bytes = t.bytes ↔ s = t := by
  constructor
  · intro h
    have hnil : s.bytes ++ [] = t.bytes ++ [] := by rw [h]
    simp only [SignedInput.bytes, outpointSerialize, append_assoc, u256_append_inj,
      u32_append_inj, script_append_inj, i64_append_inj] at hnil
    obtain ⟨⟨hash, n⟩, scriptCode, amount, sequence⟩ := s
    obtain ⟨⟨hash', n'⟩, scriptCode', amount', sequence'⟩ := t
    grind
  · intro h
    rw [h]

theorem SighashMessage.bytes_inj {m m' : SighashMessage}
    (hshape : m.shielded.isSome = m'.shielded.isSome) (hs : m.signedInput = some s)
    (ht : m'.signedInput = some t) (h : m.bytes = m'.bytes) : m = m' := by
  cases m with
  | mk header versionGroupId hp hq ho hj shielded lockTime expiryHeight hashType signed =>
  cases m' with
  | mk header' versionGroupId' hp' hq' ho' hj' shielded' lockTime' expiryHeight' hashType'
      signed' =>
  subst hs ht
  cases shielded with
  | none =>
    cases shielded' with
    | some d => simp at hshape
    | none =>
      simp only [bytes, Option.elim_none, Option.elim_some, append_assoc,
        nil_append, u256_append_inj, u32_append_inj, SignedInput.bytes_inj] at h
      grind
  | some d =>
    cases shielded' with
    | none => simp at hshape
    | some d' =>
      simp only [bytes, ShieldedDigests.hashBytes, Option.elim_some,
        append_assoc, u256_append_inj, u32_append_inj, i64_append_inj,
        SignedInput.bytes_inj] at h
      cases d
      cases d'
      grind

end Inj

open SigningInput

section Parts

theorem reads_outpoint (op : Outpoint) :
    Reads (do return ⟨← readU256, ← readU32⟩) (outpointSerialize op) op :=
  (reads_u256 op.hash).bind (reads_u32 op.n).bind_pure

theorem reads_spendHash (sd : WireSpend) :
    Reads (do
      return ⟨← readU256, ← readU256, ← readU256, ← readU256, ← readArray 192, .replicate 64 0⟩)
      (spendHashBytes sd) sd.withoutSignature := by
  apply (reads_u256 sd.cv).bind
  apply (reads_u256 sd.anchor).bind
  apply (reads_u256 sd.nullifier).bind
  apply (reads_u256 sd.rk).bind
  exact (reads_array sd.zkproof).bind_pure

theorem outpoints_injective :
    Injective fun ops : List Outpoint => ops.flatMap outpointSerialize :=
  flatMap_injective_of_reads reads_outpoint fun op =>
    ne_nil_of_length (n := 35) (by simp [outpointSerialize])

theorem sequences_injective :
    Injective fun ns : List UInt32 => ns.flatMap fun n => leBytes 4 n.toNat :=
  flatMap_injective_of_reads reads_u32 fun n => ne_nil_of_length (n := 3) (by simp)

theorem txOuts_injective : Injective fun outs : List TxOut => outs.flatMap txOutSerialize := by
  apply flatMap_injective_of_reads reads_txOut
  intro out hnil
  have hlen := congrArg length hnil
  simp [txOutSerialize] at hlen

theorem outputDescriptions_injective :
    Injective fun ods : List WireOutput => ods.flatMap outputDescriptionSerialize :=
  flatMap_injective_of_reads reads_outputDescription fun od =>
    ne_nil_of_length (n := outputDescriptionSize - 1)
      (by simp [outputDescriptionSize, groth16ProofSize])

theorem bytesWithKey_injective :
    Injective fun x : List UInt8 × UInt256 => x.1 ++ writeU256 x.2 := by
  intro x y heq
  have hlen : (writeU256 x.2).length = (writeU256 y.2).length := by
    rw [writeU256_length, writeU256_length]
  have hparts := append_inj' heq hlen
  have hnil : writeU256 x.2 ++ [] = writeU256 y.2 ++ [] := by rw [hparts.2]
  exact Prod.ext hparts.1 (u256_append_inj.mp hnil).1

theorem flatMap_spendHash_inj {xs ys : List WireSpend} :
    xs.flatMap spendHashBytes = ys.flatMap spendHashBytes ↔
      xs.map WireSpend.withoutSignature = ys.map WireSpend.withoutSignature := by
  constructor
  · refine flatMap_inj reads_spendHash fun sd => ne_nil_of_length (n := 319) ?_
    simp [spendHashBytes]
  · intro h
    have hbytes := congrArg (fun sds : List WireSpend => sds.flatMap spendHashBytes) h
    simp only [flatMap_map] at hbytes
    exact hbytes

theorem flatMap_jsDescription_inj {xs ys : List WireJoinsplit}
    (hxs : ∀ jsd ∈ xs, jsd.useGroth = useGroth) (hys : ∀ jsd ∈ ys, jsd.useGroth = useGroth) :
    xs.flatMap jsDescriptionSerialize = ys.flatMap jsDescriptionSerialize ↔
      xs.map WireJoinsplit.written = ys.map WireJoinsplit.written := by
  constructor
  · intro h
    have hnil : xs.flatMap jsDescriptionSerialize ++ [] =
        ys.flatMap jsDescriptionSerialize ++ [] := by rw [h]
    have hreads : ∀ jsd : WireJoinsplit, jsd.useGroth = useGroth →
        Reads (jsDescriptionDeserialize useGroth) (jsDescriptionSerialize jsd) jsd.written := by
      intro jsd hjsd
      rw [← hjsd]
      exact reads_jsDescription jsd
    refine (flatMap_append_inj (fun jsd hmem => hreads jsd (hxs jsd hmem))
      (fun jsd hmem => hreads jsd (hys jsd hmem)) (fun jsd hnil => ?_) rfl hnil).1
    have hlen := congrArg length hnil
    simp [jsDescriptionSize] at hlen
  · intro h
    have hbytes := congrArg (fun js : List WireJoinsplit => js.flatMap jsDescriptionSerialize) h
    simpa only [flatMap_map, jsDescription_written] using hbytes

theorem nonemptyPart_inj {α β : Type} {f : α → List UInt8} {g : α → β} {xs ys : List α}
    (h : xs.flatMap f = ys.flatMap f ↔ xs.map g = ys.map g) :
    ((if xs = [] then none else some (xs.flatMap f)) =
      if ys = [] then none else some (ys.flatMap f)) ↔ xs.map g = ys.map g := by
  split_ifs with hx hy hy
  · simp [hx, hy]
  · simp [hx, hy, eq_comm]
  · simp [hx, hy]
  · rw [Option.some_inj, h]

variable (a b : SigningInput)

theorem prevoutsPart_eq :
    a.prevoutsPart = a.signedFields.prevouts.map fun ops => ops.flatMap outpointSerialize := by
  change (if _ then none else some _) = Option.map _ (if _ then none else some _)
  split_ifs
  · rfl
  · exact congrArg some (flatMap_map ..).symm

theorem sequencesPart_eq :
    a.sequencesPart =
      a.signedFields.sequences.map fun ns => ns.flatMap fun n => leBytes 4 n.toNat := by
  change (if _ then none else some _) = Option.map _ (if _ then none else some _)
  split_ifs
  · rfl
  · change some (sequencesBytes a.tx) = some (flatMap _ (a.tx.vin.map TxIn.sequence))
    rw [flatMap_map]
    rfl

theorem joinsplitsPart_eq :
    a.joinsplitsPart = a.signedFields.joinsplits.map fun x => x.1 ++ writeU256 x.2 := by
  change (if _ then none else some _) = Option.map _ (if _ then none else some _)
  split_ifs <;> rfl

theorem spendsPart_inj :
    a.spendsPart = b.spendsPart ↔
      a.tx.vShieldedSpend.map WireSpend.withoutSignature =
        b.tx.vShieldedSpend.map WireSpend.withoutSignature :=
  nonemptyPart_inj flatMap_spendHash_inj

theorem shieldedOutputsPart_inj :
    a.shieldedOutputsPart = b.shieldedOutputsPart ↔
      a.tx.vShieldedOutput = b.tx.vShieldedOutput := by
  have hbytes : a.tx.vShieldedOutput.flatMap outputDescriptionSerialize =
      b.tx.vShieldedOutput.flatMap outputDescriptionSerialize ↔
      a.tx.vShieldedOutput.map id = b.tx.vShieldedOutput.map id := by
    rw [map_id, map_id]
    exact outputDescriptions_injective.eq_iff
  have hpart := nonemptyPart_inj hbytes
  rwa [map_id, map_id] at hpart

end Parts

section Binding

variable {H : SighashHashes} {consensusBranchId : UInt32} {a b : SigningInput}

section

variable (hsame : a.sigversion = b.sigversion)

include hsame

theorem shielded_eq_iff :
    a.signedFields.shielded = b.signedFields.shielded ↔
      (b.sigversion = .sapling → a.spendsPart = b.spendsPart ∧
        a.shieldedOutputsPart = b.shieldedOutputsPart ∧ a.tx.valueBalance = b.tx.valueBalance) := by
  rw [spendsPart_inj, shieldedOutputsPart_inj]
  simp only [signedFields, hsame]
  split_ifs with hsapling
  · simp only [Option.some_inj, Prod.mk.injEq, hsapling, forall_const]
  · simp [hsapling]

theorem message_of_signedFields
    (h : a.signedFields = b.signedFields) : a.message H = b.message H := by
  have houtputs : a.signedOutputs = b.signedOutputs := congrArg SignedFields.outputs h
  have hshielded := (shielded_eq_iff hsame).mp (congrArg SignedFields.shielded h)
  apply SighashMessage.ext
  · exact congrArg SignedFields.header h
  · exact congrArg SignedFields.versionGroupId h
  · simp only [message, prevoutsPart_eq, h]
  · simp only [message, sequencesPart_eq, h]
  · simp only [message, outputsPart, houtputs]
  · simp only [message, joinsplitsPart_eq, h]
  · simp only [message, hsame]
    split_ifs with hsapling
    · rw [(hshielded hsapling).1, (hshielded hsapling).2.1, (hshielded hsapling).2.2]
    · rfl
  · exact congrArg SignedFields.lockTime h
  · exact congrArg SignedFields.expiryHeight h
  · exact congrArg SignedFields.hashType h
  · exact congrArg some (congrArg SignedFields.signedInput h)

theorem signedFields_of_message
    (hfree : H.CollisionFree (a.hashed H consensusBranchId ++ b.hashed H consensusBranchId))
    (h : a.message H = b.message H) : a.signedFields = b.signedFields := by
  -- a digest of the one message against the same digest of the other
  have hpart : ∀ {personal : List UInt8} {x y : Option (List UInt8)},
      (personal, x) ∈ a.hashed H consensusBranchId → (personal, y) ∈ b.hashed H consensusBranchId →
      H.digest personal x = H.digest personal y → x = y := fun hx hy =>
    hfree.digest_inj (mem_append_left _ hx) (mem_append_right _ hy)
  have hprevouts : a.prevoutsPart = b.prevoutsPart :=
    hpart (by simp [hashed]) (by simp [hashed]) (congrArg hashPrevouts h)
  have hsequence : a.sequencesPart = b.sequencesPart :=
    hpart (by simp [hashed]) (by simp [hashed]) (congrArg hashSequence h)
  have houtputs : a.outputsPart = b.outputsPart :=
    hpart (by simp [hashed]) (by simp [hashed]) (congrArg hashOutputs h)
  have hjoinsplits : a.joinsplitsPart = b.joinsplitsPart :=
    hpart (by simp [hashed]) (by simp [hashed]) (congrArg hashJoinsplits h)
  rw [prevoutsPart_eq, prevoutsPart_eq] at hprevouts
  rw [sequencesPart_eq, sequencesPart_eq] at hsequence
  rw [joinsplitsPart_eq, joinsplitsPart_eq] at hjoinsplits
  apply SignedFields.ext
  · exact congrArg header h
  · exact congrArg versionGroupId h
  · exact Option.map_injective outpoints_injective hprevouts
  · exact Option.map_injective sequences_injective hsequence
  · exact Option.map_injective txOuts_injective houtputs
  · exact Option.map_injective bytesWithKey_injective hjoinsplits
  · rw [shielded_eq_iff hsame]
    intro hsapling
    have hshielded := congrArg shielded h
    simp only [message, hsame, if_pos hsapling, Option.some_inj, ShieldedDigests.mk.injEq]
      at hshielded
    exact ⟨hpart (by simp [hashed]) (by simp [hashed]) hshielded.1,
      hpart (by simp [hashed]) (by simp [hashed]) hshielded.2.1, hshielded.2.2⟩
  · exact congrArg lockTime h
  · exact congrArg SighashMessage.expiryHeight h
  · exact congrArg SighashMessage.hashType h
  · exact Option.some.inj (congrArg SighashMessage.signedInput h)

theorem messageBytes_inj
    (h : (a.message H).bytes = (b.message H).bytes) : a.message H = b.message H := by
  have hshape : (a.message H).shielded.isSome = (b.message H).shielded.isSome := by
    simp only [message, hsame]
    split_ifs <;> rfl
  exact bytes_inj hshape rfl rfl h

end

end Binding

def TxIn.withoutScript (txin : TxIn) : TxIn := { txin with scriptSig := { data := [] } }

/-- The transaction without its scripts and signatures, and without the hash that covers them. -/
def WireTransaction.withoutSignatures (tx : WireTransaction) : WireTransaction :=
  { tx with
    vin := tx.vin.map TxIn.withoutScript
    vShieldedSpend := tx.vShieldedSpend.map WireSpend.withoutSignature
    joinsplitSig := .replicate 64 0
    bindingSig := .replicate 64 0
    hash := 0 }

section Commitment

variable {a b : SigningInput}

theorem signedInput_of_vin
    (hvin : a.tx.vin.map TxIn.withoutScript = b.tx.vin.map TxIn.withoutScript)
    (hnIn : a.nIn.val = b.nIn.val) (hscript : a.scriptCode = b.scriptCode)
    (hamount : a.amount = b.amount) : a.signedInput = b.signedInput := by
  have hplace := congrArg (fun txins : List TxIn => txins[a.nIn.val]?) hvin
  have hb : a.nIn.val < b.tx.vin.length := hnIn ▸ b.nIn.isLt
  simp only [getElem?_map, getElem?_eq_getElem a.nIn.isLt,
    getElem?_eq_getElem hb, Option.map_some, Option.some_inj] at hplace
  simp only [TxIn.withoutScript, TxIn.mk.injEq, hnIn] at hplace
  simp only [SigningInput.signedInput, Fin.getElem_fin, hscript, hamount, hnIn, hplace]

theorem signedFields_of_withoutSignatures
    (htx : a.tx.withoutSignatures = b.tx.withoutSignatures) (hnIn : a.nIn.val = b.nIn.val)
    (hscript : a.scriptCode = b.scriptCode) (hamount : a.amount = b.amount)
    (htype : a.hashType = b.hashType) : a.signedFields = b.signedFields := by
  simp only [WireTransaction.withoutSignatures, WireTransaction.mk.injEq] at htx
  obtain ⟨hflag, hnumber, hgroup, hvin, hvout, hlock, hexpiry, hbalance, hspends, houtputs,
    hjoinsplits, hkey, -⟩ := htx
  have hprevouts : a.tx.vin.map TxIn.prevout = b.tx.vin.map TxIn.prevout := by
    have h := congrArg (map TxIn.prevout) hvin
    rwa [map_map, map_map] at h
  have hsequences : a.tx.vin.map TxIn.sequence = b.tx.vin.map TxIn.sequence := by
    have h := congrArg (map TxIn.sequence) hvin
    rwa [map_map, map_map] at h
  have hsame : a.sigversion = b.sigversion := by
    simp only [sigversion, signatureHashVersion, hflag, hgroup]
  simp only [signedFields, signedOutputs, hsame, hprevouts, hsequences, hspends, hflag, hnumber,
    hgroup, hvout, hlock, hexpiry, hbalance, houtputs, hjoinsplits, hkey, htype, hnIn,
    signedInput_of_vin hvin hnIn hscript hamount]

theorem joinsplits_eq_iff (ha : ∀ jsd ∈ a.tx.vJoinsplit, jsd.useGroth = useGroth)
    (hb : ∀ jsd ∈ b.tx.vJoinsplit, jsd.useGroth = useGroth) :
    a.signedFields.joinsplits = b.signedFields.joinsplits ↔
      a.tx.vJoinsplit.map WireJoinsplit.written = b.tx.vJoinsplit.map WireJoinsplit.written ∧
        (a.tx.vJoinsplit ≠ [] → a.tx.joinsplitPubkey = b.tx.joinsplitPubkey) := by
  change (if _ then none else some _) = (if _ then none else some _) ↔ _
  split_ifs with hnilA hnilB hnilB
  · simp [hnilA, hnilB]
  · simp [hnilA, hnilB, eq_comm]
  · simp [hnilA, hnilB]
  · rw [Option.some_inj, Prod.mk.injEq, flatMap_jsDescription_inj ha hb]
    simp [hnilA]

end Commitment

/-- The fields that a signature covers, and no others. For Overwinter the shielded part is not one
of them. -/
theorem signatureHash_commitment (H : SighashHashes) (consensusBranchId : UInt32)
    (a b : SigningInput) (cacheA cacheB : Option PrecomputedTxData)
    (hcacheA : ∀ data ∈ cacheA, data = precomputeTxData H a.tx)
    (hcacheB : ∀ data ∈ cacheB, data = precomputeTxData H b.tx)
    (hversion : a.sigversion ≠ .sprout) (hsame : a.sigversion = b.sigversion) :
    (H.CollisionFree (a.hashed H consensusBranchId ++ b.hashed H consensusBranchId) →
      (a.signatureHash H consensusBranchId cacheA = b.signatureHash H consensusBranchId cacheB ↔
        a.signedFields = b.signedFields)) ∧
      (∀ useGroth, (∀ jsd ∈ a.tx.vJoinsplit, jsd.useGroth = useGroth) →
        (∀ jsd ∈ b.tx.vJoinsplit, jsd.useGroth = useGroth) →
        (a.signedFields.joinsplits = b.signedFields.joinsplits ↔
          a.tx.vJoinsplit.map WireJoinsplit.written = b.tx.vJoinsplit.map WireJoinsplit.written ∧
            (a.tx.vJoinsplit ≠ [] → a.tx.joinsplitPubkey = b.tx.joinsplitPubkey))) ∧
      (a.tx.withoutSignatures = b.tx.withoutSignatures → a.nIn.val = b.nIn.val →
        a.scriptCode = b.scriptCode → a.amount = b.amount → a.hashType = b.hashType →
        a.signatureHash H consensusBranchId cacheA =
          b.signatureHash H consensusBranchId cacheB) := by
  rw [signatureHash_eq hcacheA hversion, signatureHash_eq hcacheB (hsame ▸ hversion),
    Option.some_inj]
  refine ⟨fun hfree => ⟨fun heq => ?_, fun hfields => ?_⟩,
    fun useGroth => joinsplits_eq_iff, fun htx hnIn hscript hamount htype => ?_⟩
  · have hbytes : (a.message H).bytes = (b.message H).bytes :=
      hfree.inj _ _ _ (by simp [hashed]) (by simp [hashed]) heq
    exact signedFields_of_message hsame hfree (messageBytes_inj hsame hbytes)
  · rw [message_of_signedFields hsame hfields]
  · have hfields := signedFields_of_withoutSignatures htx hnIn hscript hamount htype
    rw [message_of_signedFields hsame hfields]

def saplingSigning (scriptSig : Script) (amount : Int64) : SigningInput where
  tx :=
    { overwintered := true, version := 4, versionGroupId := saplingVersionGroupId,
      vin := [{ prevout := ⟨7, 0⟩, scriptSig }], vout := [{ value := 5 }] }
  nIn := ⟨0, by simp⟩
  scriptCode := { data := [] }
  amount
  hashType := 1

def positionalHash : SighashHashes where
  blake2bHashPersonal _ data := .ofNat 256 (data.foldl (fun h b => 257 * h + b.toNat + 1) 1)
  hash256 _ := 0

/-- Another script in the input leaves the hash as it is, and another amount does not. -/
theorem signatureHash_commitment_rescripted :
    let a := saplingSigning { data := [] } 5
    let b := saplingSigning { data := [opReturn] } 5
    let c := saplingSigning { data := [] } 6
    a.signatureHash positionalHash 0 none = b.signatureHash positionalHash 0 none ∧
      a.signatureHash positionalHash 0 none ≠ c.signatureHash positionalHash 0 none := by
  intro a b c
  let S (d : SigningInput) := a.hashed positionalHash 0 ++ d.hashed positionalHash 0
  have hdigests : ∀ d ∈ [b, c], (∀ p ∈ S d, ∀ q ∈ S d, p.1 = q.1 →
      positionalHash.digest p.1 p.2 = positionalHash.digest q.1 q.2 → p.2 = q.2) ∧
      ∀ p ∈ S d, p.2 ≠ none → positionalHash.digest p.1 p.2 ≠ 0 := by decide +kernel
  have hfree : ∀ d ∈ [b, c], positionalHash.CollisionFree (S d) := fun d hd =>
    ⟨fun _ _ _ hx hy heq => Option.some.inj ((hdigests d hd).1 _ hx _ hy rfl heq),
      fun _ _ hx => (hdigests d hd).2 _ hx (Option.some_ne_none _)⟩
  have hb := (signatureHash_commitment positionalHash 0 a b none none (by simp) (by simp)
    (by decide) (by decide)).1 (hfree b (by simp))
  have hc := (signatureHash_commitment positionalHash 0 a c none none (by simp) (by simp)
    (by decide) (by decide)).1 (hfree c (by simp))
  refine ⟨hb.mpr rfl, fun heq => ?_⟩
  have hamount : (5 : Int64) = 6 := congrArg (·.signedInput.amount) (hc.mp heq)
  exact absurd hamount (by decide)

def overwinterSigning (valueBalance : Int64) : SigningInput where
  tx :=
    { overwintered := true, version := 3, versionGroupId := overwinterVersionGroupId,
      vin := [{ prevout := ⟨7, 0⟩ }], vout := [{ value := 5 }], valueBalance }
  nIn := ⟨0, by simp⟩
  scriptCode := { data := [] }
  amount := 5
  hashType := 1

theorem overwinter_valueBalance_not_signed :
    (overwinterSigning 0).sigversion = .overwinter ∧
      (overwinterSigning 1).sigversion = .overwinter ∧
      (overwinterSigning 0).tx.valueBalance ≠ (overwinterSigning 1).tx.valueBalance ∧
      ∀ H consensusBranchId, (overwinterSigning 0).signatureHash H consensusBranchId none =
        (overwinterSigning 1).signatureHash H consensusBranchId none :=
  ⟨by decide, by decide, by decide, fun _ _ => rfl⟩

end ZClassic
